import LibCoap.Packet.RoundTrip

/-! # The heads of the options

In front of each value stand the head byte of the option and the extension bytes of its two
quantities: what the option loop of `serialize` emits through `get_option_nibble` and `option_maker`,
and what `parse_options` reads through `option_parser`. The writer subtracts the low byte of the number
before and hands `option_maker` the low byte of the difference; the reader adds in 16 bits. -/

namespace LibCoap

open Machine Wire

/-! ## Writing and reading heads -/

/-- The bytes in front of the value. -/
def headBytes (opt : PacketOption) (optNumDelta : UInt8) : List UInt8 :=
  ((deltaNibble opt optNumDelta <<< 4) ||| lengthNibble opt) ::
    (extensionBytes (deltaNibble opt optNumDelta) (optDelta opt optNumDelta).toUInt8 ++
      extensionBytes (lengthNibble opt) (UInt8.ofNat opt.value.length))

/-- An option is its head and its value. -/
theorem optionBytes_eq (opt : PacketOption) (optNumDelta : UInt8) :
    optionBytes opt optNumDelta = headBytes opt optNumDelta ++ opt.value := by
  simp [optionBytes, headBytes]

/-- The heads of the options, one behind the other, as the option loop emits them. -/
def headsBytes : List PacketOption → UInt8 → List UInt8
  | [], _ => []
  | opt :: rest, optNumDelta => headBytes opt optNumDelta ++ headsBytes rest opt.number.toUInt8

/-- What a head says, and how many extension bytes say it. -/
structure OptionHead where
  number : UInt16
  numberExtension : Nat
  length : Nat
  lengthExtension : Nat
  deriving DecidableEq, Repr

/-- The part of the loop body of `parse_options` in front of the value, entered with `buffer[i]` in
`opt.header.asByte`: what is read and the position behind, or the error code. -/
def readHead (buffer : List UInt8) (length : Nat) (head : UInt8) (i : Nat) (optNumber : UInt16) :
    Exec (Except ErrorCode (OptionHead × Nat)) := do
  let delta := head.toNat / 16
  let len := head.toNat % 16
  let (deltaOk, optDelta, j) ← optionParser buffer length delta (UInt16.ofNat delta) i
  if !deltaOk then pure (.error .wrongOptionDelta)
  else
    let (lengthOk, optLength, k) ← optionParser buffer length len (UInt16.ofNat len) j
    if !lengthOk then pure (.error .wrongOptionLength)
    else pure (.ok (⟨optNumber + optDelta, j - i, optLength.toNat, k - j⟩, k + 1))

/-- The loop body is the head and the value behind it. -/
theorem parseOption_eq (buffer : List UInt8) (length : Nat) (head : UInt8) (c : OptionCursor) :
    parseOption buffer length head c =
      (readHead buffer length head c.i c.optNumber >>= fun
        | .error e => pure (.rejected e)
        | .ok (h, i) =>
          if i + h.length > length then pure (.rejected .wrongOptionLength)
          else do
            let bytes ← readRange buffer i h.length
            pure (.next ⟨i + h.length, PacketOption.clear.value, h.number,
              c.options ++ [⟨head, h.number, c.value ++ bytes⟩]⟩)) := by
  rw [parseOption, readHead]
  cases optionParser buffer length (head.toNat / 16) (UInt16.ofNat (head.toNat / 16)) c.i with
  | error e => rfl
  | ok read =>
    obtain ⟨deltaOk, delta, j⟩ := read
    cases deltaOk with
    | false => rfl
    | true =>
      simp only [ok_bind, Bool.not_true, Bool.false_eq_true, if_false]
      cases optionParser buffer length (head.toNat % 16) (UInt16.ofNat (head.toNat % 16)) j with
      | error e => rfl
      | ok read =>
        obtain ⟨lengthOk, len, k⟩ := read
        cases lengthOk with
        | false => rfl
        | true => rfl

/-- Heads read one behind the other, with their running number. -/
def readHeads (buffer : List UInt8) (length : Nat) :
    Nat → Nat → UInt16 → Exec (Except ErrorCode (List OptionHead × Nat))
  | 0, i, _ => pure (.ok ([], i))
  | count + 1, i, optNumber => do
    let head ← readAt buffer i
    match ← readHead buffer length head i optNumber with
    | .error e => pure (.error e)
    | .ok (h, i) =>
      match ← readHeads buffer length count i h.number with
      | .error e => pure (.error e)
      | .ok (hs, i) => pure (.ok (h :: hs, i))

/-! ## What is read back -/

/-- What is read of a head that is emitted, behind the given running number. -/
def headReadBack (opt : PacketOption) (optNumDelta : UInt8) (optNumber : UInt16) : OptionHead where
  number := optNumber +
    UInt16.ofNat (readBack (deltaNibble opt optNumDelta) (optDelta opt optNumDelta).toUInt8)
  numberExtension :=
    (extensionBytes (deltaNibble opt optNumDelta) (optDelta opt optNumDelta).toUInt8).length
  length := readBack (lengthNibble opt) (UInt8.ofNat opt.value.length)
  lengthExtension := (extensionBytes (lengthNibble opt) (UInt8.ofNat opt.value.length)).length

/-- What is read of the heads that are emitted. -/
def headsReadBack : List PacketOption → UInt8 → UInt16 → List OptionHead
  | [], _, _ => []
  | opt :: rest, optNumDelta, optNumber =>
    headReadBack opt optNumDelta optNumber ::
      headsReadBack rest opt.number.toUInt8 (headReadBack opt optNumDelta optNumber).number

/-- A quantity that is read has 16 bits. -/
theorem readBack_lt {n : UInt8} (hn : n.toNat ≤ 14) (x : UInt8) : readBack n x < 65536 := by
  unfold readBack
  split
  · omega
  split
  · exact Nat.mod_lt _ (by decide)
  · omega

/-- **A head that is emitted is read** to its end. -/
theorem readHead_headBytes (opt : PacketOption) (optNumDelta : UInt8) (optNumber : UInt16)
    (pre rest : List UInt8) {length : Nat}
    (hlength : (pre ++ headBytes opt optNumDelta).length ≤ length) :
    readHead (pre ++ (headBytes opt optNumDelta ++ rest)) length
        ((deltaNibble opt optNumDelta <<< 4) ||| lengthNibble opt) pre.length optNumber =
      .ok (.ok (headReadBack opt optNumDelta optNumber,
        (pre ++ headBytes opt optNumDelta).length)) := by
  have hd : (deltaNibble opt optNumDelta).toNat ≤ 14 := getOptionNibble_le _
  have hl : (lengthNibble opt).toNat ≤ 14 := getOptionNibble_le _
  have hhead := toNat_head hd hl
  have hdelta := extended_extensionBytes hd (optDelta opt optNumDelta).toUInt8
  have hlen := extended_extensionBytes hl (UInt8.ofNat opt.value.length)
  generalize hds : extensionBytes (deltaNibble opt optNumDelta) (optDelta opt optNumDelta).toUInt8 =
    ds at hdelta
  generalize hls : extensionBytes (lengthNibble opt) (UInt8.ofNat opt.value.length) = ls at hlen
  generalize hbyte : (deltaNibble opt optNumDelta <<< 4) ||| lengthNibble opt = head at hhead
  have hbytes : headBytes opt optNumDelta = head :: (ds ++ ls) := by
    rw [headBytes, hds, hls, hbyte]
  rw [hbytes] at hlength ⊢
  simp only [List.length_append, List.length_cons] at hlength
  -- the two fields, each behind what has been read
  have hread := optionParser_extended hdelta (pre ++ [head]) (ls ++ rest) (i := pre.length) length
    (by simp) (by omega)
  have hbehind : pre.length + ds.length + 1 = (pre ++ (head :: ds)).length := by
    rw [List.length_append, List.length_cons]
    omega
  have hread' := optionParser_extended hlen (pre ++ (head :: ds)) rest length hbehind (by omega)
  have hnibble : head.toNat / 16 = (deltaNibble opt optNumDelta).toNat := by omega
  have hnibble' : head.toNat % 16 = (lengthNibble opt).toNat := by omega
  have hshort := readBack_lt hl (UInt8.ofNat opt.value.length)
  have hword : (UInt16.ofNat (readBack (lengthNibble opt) (UInt8.ofNat opt.value.length))).toNat =
      readBack (lengthNibble opt) (UInt8.ofNat opt.value.length) := by
    rw [UInt16.toNat_ofNat', Nat.mod_eq_of_lt hshort]
  simp only [List.append_assoc, List.cons_append, List.nil_append] at hread hread' ⊢
  rw [readHead, hnibble, hnibble', hread]
  simp only [ok_bind, Bool.not_true, Bool.false_eq_true, if_false]
  rw [hread']
  simp only [ok_bind, Bool.not_true, Bool.false_eq_true, if_false, hword]
  have hend : pre.length + ds.length + ls.length + 1 = (pre ++ head :: (ds ++ ls)).length := by
    simp only [List.length_append, List.length_cons]
    omega
  rw [headReadBack, hds, hls, hend, Nat.add_sub_cancel_left, Nat.add_sub_cancel_left]
  rfl

/-- **The heads that are emitted are read** to their end, one behind the other. -/
theorem readHeads_headsBytes (options : List PacketOption) (optNumDelta : UInt8)
    (optNumber : UInt16) (pre rest : List UInt8) {length : Nat}
    (hlength : (pre ++ headsBytes options optNumDelta).length ≤ length) :
    readHeads (pre ++ (headsBytes options optNumDelta ++ rest)) length options.length pre.length
        optNumber =
      .ok (.ok (headsReadBack options optNumDelta optNumber,
        (pre ++ headsBytes options optNumDelta).length)) := by
  induction options generalizing pre optNumDelta optNumber with
  | nil => simp [headsBytes, readHeads, headsReadBack]
  | cons opt others ih =>
    have hcut : headsBytes (opt :: others) optNumDelta =
        headBytes opt optNumDelta ++ headsBytes others opt.number.toUInt8 := rfl
    rw [hcut, List.length_append, List.length_append] at hlength
    have hfits : (pre ++ headBytes opt optNumDelta).length ≤ length := by
      rw [List.length_append]
      omega
    have hhead := readHead_headBytes opt optNumDelta optNumber pre
      (headsBytes others opt.number.toUInt8 ++ rest) hfits
    have hothers := ih opt.number.toUInt8 (headReadBack opt optNumDelta optNumber).number
      (pre ++ headBytes opt optNumDelta) (by rw [List.length_append, List.length_append]; omega)
    have hat := readAt_append pre
      (extensionBytes (deltaNibble opt optNumDelta) (optDelta opt optNumDelta).toUInt8 ++
        extensionBytes (lengthNibble opt) (UInt8.ofNat opt.value.length) ++
        (headsBytes others opt.number.toUInt8 ++ rest))
      ((deltaNibble opt optNumDelta <<< 4) ||| lengthNibble opt) rfl
    have hfirst : readAt (pre ++ (headBytes opt optNumDelta ++
        (headsBytes others opt.number.toUInt8 ++ rest))) pre.length =
          .ok ((deltaNibble opt optNumDelta <<< 4) ||| lengthNibble opt) := hat
    rw [List.append_assoc, List.append_assoc] at hothers
    rw [hcut, List.append_assoc, List.length_cons, readHeads, hfirst, ok_bind, hhead, ok_bind]
    simp only [hothers, ok_bind, headsReadBack]
    rfl

/-! ## When it is what was written -/

/-- What the heads of the options say, with the extension bytes that are emitted. -/
def heads : List PacketOption → UInt8 → List OptionHead
  | [], _ => []
  | opt :: rest, optNumDelta =>
    { number := opt.number
      numberExtension :=
        (extensionBytes (deltaNibble opt optNumDelta) (optDelta opt optNumDelta).toUInt8).length
      length := opt.value.length
      lengthExtension :=
        (extensionBytes (lengthNibble opt) (UInt8.ofNat opt.value.length)).length } ::
      heads rest opt.number.toUInt8

/-- The heads that are emitted are read as what they were written for, wherever they stand. -/
def HeadsRoundTrip (options : List PacketOption) : Prop :=
  ∀ (pre rest : List UInt8) (length : Nat), (pre ++ headsBytes options 0).length ≤ length →
    readHeads (pre ++ (headsBytes options 0 ++ rest)) length options.length pre.length 0 =
      .ok (.ok (heads options 0, (pre ++ headsBytes options 0).length))

/-- A number can be told from the one before: by a small distance from a number that fits into a byte,
or by one of the distances that the two-byte extension happens to preserve. -/
def Distinct (previous number : Nat) : Prop :=
  (previous < 256 ∧ previous ≤ number ∧ number ≤ previous + 268) ∨
    (512 ≤ previous ∧ number = previous + 11)

/-- The same for the options in a row; and every value is short. -/
def Codable : Nat → List PacketOption → Prop
  | _, [] => True
  | previous, opt :: rest =>
    (Distinct previous opt.number.toNat ∧ opt.value.length ≤ 268) ∧
      Codable opt.number.toNat rest

/-- A distance that takes two extension bytes, and the one for which they give the number back. The
reader adds it to `256 * q + r`, the writer has subtracted `r` only. -/
theorem wide_distance {q r d : Nat} (hq : q < 256) (hr : r < 256) (hd : 269 ≤ d)
    (hsum : d + r < 65536) :
    (256 * q + r + (256 * ((d + 243) % 256) + (if d % 256 < 13 then 254 else 255) + 269) % 65536) %
        65536 = d + r ↔ 2 ≤ q ∧ d = 256 * q + 11 := by
  split
  · omega
  · omega

/-- **Which numbers are read back.** -/
theorem number_readBack_iff (opt : PacketOption) (optNumber : UInt16) :
    (headReadBack opt optNumber.toUInt8 optNumber).number = opt.number ↔
      Distinct optNumber.toNat opt.number.toNat := by
  have hnumber := opt.number.toNat_lt
  have hprevious := optNumber.toNat_lt
  have hlow : optNumber.toUInt8.toNat = optNumber.toNat % 256 := UInt16.toNat_toUInt8 _
  have hdelta : (optDelta opt optNumber.toUInt8).toNat =
      if optNumber.toNat % 256 ≤ opt.number.toNat then
        opt.number.toNat - optNumber.toNat % 256
      else 4294967296 + opt.number.toNat - optNumber.toNat % 256 := by
    rw [optDelta, UInt32.ofInt, UInt32.toNat_ofNat', hlow]
    split <;> omega
  have hword := readBack_lt (getOptionNibble_le (optDelta opt optNumber.toUInt8))
    (optDelta opt optNumber.toUInt8).toUInt8
  rw [← UInt16.toNat_inj, headReadBack, UInt16.toNat_add, UInt16.toNat_ofNat', deltaNibble,
    Nat.mod_eq_of_lt hword, Distinct]
  rcases readBack_getOptionNibble (optDelta opt optNumber.toUInt8) (UInt32.toNat_toUInt8 _) with
    ⟨h, h'⟩ | ⟨h, h₂, h'⟩ | ⟨h, h'⟩
  · -- at most one extension byte
    rw [h', hdelta]
    rw [hdelta] at h
    split at h
    · next hle =>
      rw [if_pos hle]
      omega
    · omega
  · -- two extension bytes
    rw [h']
    rw [hdelta] at h h₂
    split at h
    · next hle =>
      rw [if_pos hle] at hdelta h₂
      have hwide := wide_distance (q := optNumber.toNat / 256) (r := optNumber.toNat % 256)
        (d := opt.number.toNat - optNumber.toNat % 256) (by omega) (by omega) h (by omega)
      rw [Nat.div_add_mod, Nat.sub_add_cancel hle] at hwide
      rw [hdelta, hwide]
      omega
    · next hlt =>
      rw [if_neg hlt] at h₂
      omega
  · -- a number below the low byte of the one before gives a distance that no nibble announces
    rw [h']
    rw [hdelta] at h
    split at h <;> omega

/-- **Which lengths are read back.** -/
theorem length_readBack_iff (opt : PacketOption) :
    readBack (lengthNibble opt) (UInt8.ofNat opt.value.length) = opt.value.length ↔
      opt.value.length ≤ 268 := by
  have hlength : (UInt32.ofNat opt.value.length).toNat = opt.value.length % 4294967296 :=
    UInt32.toNat_ofNat'
  rw [lengthNibble]
  rcases readBack_getOptionNibble _ (toNat_lengthByte opt) with ⟨h, h'⟩ | ⟨h, h₂, h'⟩ | ⟨h, h'⟩
  · rw [h', hlength]
    omega
  · rw [h', hlength]
    rw [hlength] at h h₂
    split <;> omega
  · rw [hlength] at h
    rw [h']
    omega

/-- **The heads round-trip** exactly when every value is short and every number can be told from the
one before. -/
theorem headsRoundTrip_iff (options : List PacketOption) :
    HeadsRoundTrip options ↔ Codable 0 options := by
  have hread : HeadsRoundTrip options ↔ headsReadBack options 0 0 = heads options 0 := by
    constructor
    · -- one place to stand is enough: what is read does not depend on it
      intro h
      have hthere := h [] [] _ (Nat.le_refl _)
      rw [readHeads_headsBytes options 0 0 [] [] (Nat.le_refl _)] at hthere
      simpa using hthere
    · intro h pre rest length hlength
      rw [readHeads_headsBytes options 0 0 pre rest hlength, h]
  -- as long as the numbers come out right, the running number is the number before
  have hrow : ∀ (os : List PacketOption) (optNumber : UInt16),
      headsReadBack os optNumber.toUInt8 optNumber = heads os optNumber.toUInt8 ↔
        Codable optNumber.toNat os := by
    intro os
    induction os with
    | nil => exact fun _ => iff_of_true rfl trivial
    | cons opt os ih =>
      intro optNumber
      rw [headsReadBack, heads, List.cons.injEq, Codable, ← number_readBack_iff,
        ← length_readBack_iff]
      constructor
      · rintro ⟨hhead, hrest⟩
        have hnumber : (headReadBack opt optNumber.toUInt8 optNumber).number = opt.number := by
          rw [hhead]
        have hlength : (headReadBack opt optNumber.toUInt8 optNumber).length = opt.value.length := by
          rw [hhead]
        rw [hnumber] at hrest
        exact ⟨⟨hnumber, hlength⟩, (ih opt.number).mp hrest⟩
      · rintro ⟨⟨hnumber, hlength⟩, hrest⟩
        refine ⟨?_, ?_⟩
        · rw [OptionHead.mk.injEq]
          exact ⟨hnumber, rfl, hlength, rfl⟩
        · rw [hnumber]
          exact (ih opt.number).mpr hrest
  rw [hread]
  exact hrow options 0

/-- An option with the number 269 is read as one with the number 524. -/
theorem not_headsRoundTrip_269 :
    readHeads (headsBytes [⟨0, 269, []⟩] 0) 3 1 0 0 = .ok (.ok ([⟨524, 2, 0, 0⟩], 3)) ∧
      ¬HeadsRoundTrip [⟨0, 269, []⟩] := by
  refine ⟨by decide, fun h => ?_⟩
  exact absurd (h [] [] 3 (by decide)) (by decide)

/-- Behind the number 256 the next one is read as 513, and a length of 269 as 524. -/
example :
    readHeads (headsBytes [⟨0, 256, []⟩, ⟨0, 257, []⟩] 0) 4 2 0 0 =
        .ok (.ok ([⟨256, 1, 0, 0⟩, ⟨513, 1, 0, 0⟩], 4)) ∧
      readBack (getOptionNibble 269) (UInt8.ofNat 269) = 524 := by
  decide

end LibCoap
