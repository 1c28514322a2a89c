import LibCoap.Machine.Loop
import LibCoap.Packet.ParseCorrect

/-! # The option loop ends

The loop of `parse_options` looks at `buffer[i]` before it compares `i` with `length`, and `i` is moved
by `option_parser`, by the step over the head byte and by the length of the value, which is read from
the datagram. Whatever stands in the buffer, and in the byte behind the datagram, `i` grows in every
iteration and never leaves the datagram for more than that byte. -/

namespace LibCoap

open Machine

/-! ## One iteration -/

/-- A turn of the loop of `parse_options`: the condition, and an iteration if it holds. -/
def optionTurn (buffer : List UInt8) (length : Nat) (c : OptionCursor) :
    Exec (Turn OptionCursor (Option ErrorCode × OptionCursor)) := do
  let head ← readAt buffer c.i
  if head ≠ payloadMarker ∧ c.i < length then
    match ← parseOption buffer length head c with
    | .next c' => pure (.next c')
    | .rejected e => pure (.leave (some e, c))
  else pure (.leave (none, c))

/-- The loop of `parse_options` takes such turns. -/
theorem parseOptionsLoop_eq_loop (buffer : List UInt8) (length fuel : Nat) (c : OptionCursor) :
    parseOptionsLoop buffer length fuel c = loop (optionTurn buffer length) fuel c := by
  induction fuel generalizing c with
  | zero => rfl
  | succ fuel ih =>
    rw [parseOptionsLoop, loop, optionTurn]
    cases readAt buffer c.i with
    | error e => rfl
    | ok head =>
      simp only [ok_bind]
      split
      · cases parseOption buffer length head c with
        | error e => rfl
        | ok it =>
          cases it with
          | next c' => exact ih c'
          | rejected e => rfl
      · rfl

/-- `option_parser` reads inside and stays inside. -/
theorem optionParser_inside {buffer : List UInt8} {n : Nat} (hbuffer : buffer.length = n + 1)
    (parsing : Nat) (modifying : UInt16) {i : Nat} (hi : i ≤ n) :
    ∃ ok v j, optionParser buffer n parsing modifying i = .ok (ok, v, j) ∧ i ≤ j ∧ j ≤ n := by
  have hread : ∀ k, k ≤ n → ∃ x, readAt buffer k = .ok x := fun k hk =>
    ⟨buffer[k], readAt_eq_ok.mpr (List.getElem?_eq_getElem (by omega))⟩
  rw [optionParser]
  split
  · split
    · exact ⟨false, modifying, i, rfl, Nat.le_refl i, hi⟩
    · -- `i + 1` may be the byte behind the datagram
      obtain ⟨x, hx⟩ := hread (i + 1) (by omega)
      rw [hx, ok_bind]
      exact ⟨true, _, i + 1, rfl, by omega, by omega⟩
  split
  · split
    · exact ⟨false, modifying, i, rfl, Nat.le_refl i, hi⟩
    · obtain ⟨x, hx⟩ := hread (i + 1) (by omega)
      obtain ⟨y, hy⟩ := hread (i + 2) (by omega)
      rw [hx, ok_bind, hy, ok_bind]
      exact ⟨true, _, i + 2, rfl, by omega, by omega⟩
  split
  · exact ⟨false, modifying, i, rfl, Nat.le_refl i, hi⟩
  · exact ⟨true, modifying, i, rfl, Nat.le_refl i, hi⟩

/-- **One iteration**: it is refused, or an option is appended and `i` has grown inside. -/
theorem parseOption_inside {buffer : List UInt8} {n : Nat} (hbuffer : buffer.length = n + 1)
    (head : UInt8) {c : OptionCursor} (hi : c.i ≤ n) :
    (∃ e, parseOption buffer n head c = .ok (.rejected e)) ∨
      ∃ c', parseOption buffer n head c = .ok (.next c') ∧ c.i < c'.i ∧ c'.i ≤ n ∧
        c'.options.length = c.options.length + 1 := by
  obtain ⟨deltaOk, optDelta, j, hdelta, hij, hj⟩ :=
    optionParser_inside hbuffer (head.toNat / 16) (UInt16.ofNat (head.toNat / 16)) hi
  obtain ⟨lengthOk, optLength, k, hlength, hjk, hk⟩ :=
    optionParser_inside hbuffer (head.toNat % 16) (UInt16.ofNat (head.toNat % 16)) hj
  rw [parseOption]
  simp only [hdelta, ok_bind]
  cases deltaOk with
  | false => exact .inl ⟨_, rfl⟩
  | true =>
    simp only [Bool.not_true, Bool.false_eq_true, if_false, hlength, ok_bind]
    cases lengthOk with
    | false => exact .inl ⟨_, rfl⟩
    | true =>
      simp only [Bool.not_true, Bool.false_eq_true, if_false]
      -- whatever the 16 bits of the length have become, they are compared with what is left
      by_cases hlong : k + 1 + optLength.toNat > n
      · rw [if_pos hlong]
        exact .inl ⟨_, rfl⟩
      · have hroom : k + 1 + optLength.toNat ≤ buffer.length := by omega
        rw [if_neg hlong, readRange, if_pos hroom, ok_bind]
        refine .inr ⟨_, rfl, ?_, ?_, ?_⟩
        · show c.i < k + 1 + optLength.toNat
          omega
        · show k + 1 + optLength.toNat ≤ n
          omega
        · exact List.length_append

/-- A turn that ends the loop leaves the cursor as it is. -/
theorem optionTurn_leave {buffer : List UInt8} {length : Nat} {c : OptionCursor}
    {out : Option ErrorCode × OptionCursor} (h : optionTurn buffer length c = .ok (.leave out)) :
    out.2 = c := by
  rw [optionTurn] at h
  obtain ⟨head, -, h⟩ := bind_eq_ok.mp h
  split at h
  · obtain ⟨it, -, h⟩ := bind_eq_ok.mp h
    cases it with
    | next c' => cases h
    | rejected e =>
      cases h
      rfl
  · cases h
    rfl

/-! ## The whole loop -/

/-- The condition of the loop, where `buffer[i]` can be read. -/
def continues (buffer : List UInt8) (length : Nat) (c : OptionCursor) : Bool :=
  buffer[c.i]? ≠ some payloadMarker ∧ c.i < length

/-- The cursor is in the datagram or right behind it, with at most one option for each byte passed. -/
def Inside (n first : Nat) (c : OptionCursor) : Prop := c.i ≤ n ∧ first + c.options.length ≤ c.i

/-- **One turn** leads out of the loop, or further inside. -/
theorem optionTurn_inside {buffer : List UInt8} {n first : Nat} (hbuffer : buffer.length = n + 1)
    {c : OptionCursor} (hc : Inside n first c) :
    (∃ out, optionTurn buffer n c = .ok (.leave out)) ∨
      ∃ c', optionTurn buffer n c = .ok (.next c') ∧ Inside n first c' ∧ c.i < c'.i := by
  obtain ⟨hi, hcount⟩ := hc
  have hread : readAt buffer c.i = .ok buffer[c.i] :=
    readAt_eq_ok.mpr (List.getElem?_eq_getElem (by omega))
  rw [optionTurn, hread, ok_bind]
  split
  · rcases parseOption_inside hbuffer buffer[c.i] hi with ⟨e, he⟩ | ⟨c', hc', hlt, hle, hmore⟩
    · rw [he]
      exact .inl ⟨_, rfl⟩
    · rw [hc']
      exact .inr ⟨c', rfl, ⟨hle, by omega⟩, hlt⟩
  · exact .inl ⟨_, rfl⟩

/-- The loop is left at the last of its heads. -/
theorem mem_of_heads {buffer : List UInt8} {length : Nat} {hs : List OptionCursor}
    {out : Option ErrorCode × OptionCursor} (h : Heads (optionTurn buffer length) hs out) :
    out.2 ∈ hs := by
  induction h with
  | leave ends =>
    rw [optionTurn_leave ends]
    exact List.mem_singleton.mpr rfl
  | next goes rest ih => exact List.mem_cons_of_mem _ ih

namespace Packet

/-- The cursor with which the option loop is entered. -/
def firstCursor (p : Packet) : OptionCursor :=
  ⟨packetHeaderSize + p.headerInfo.tokenLength.val, PacketOption.default.value,
    PacketOption.default.number, []⟩

/-- `parse_options` returns, and its loop has passed its head in the given states: few iterations have
been made, the positions grow and do not pass the byte behind the datagram, and where the options are
accepted they are few. -/
structure EndsInside (p : Packet) (buffer : List UInt8) (n : Nat) (hs : List OptionCursor)
    (out : Option ErrorCode × OptionCursor) : Prop where
  heads : Heads (optionTurn buffer n) (p.firstCursor :: hs) out
  returns : p.parseOptions buffer n = .ok (p.cleanOptions.concluded out)
  iterations : (p.firstCursor :: hs).countP (continues buffer n) ≤
    n - (packetHeaderSize + p.headerInfo.tokenLength.val)
  grows : (p.firstCursor :: hs).Pairwise (·.i < ·.i)
  inside : ∀ c ∈ p.firstCursor :: hs, c.i ≤ n
  options : (p.cleanOptions.concluded out).1 = true →
    (p.cleanOptions.concluded out).2.options.length ≤
      n - (packetHeaderSize + p.headerInfo.tokenLength.val)
  payloadOffset : (p.cleanOptions.concluded out).1 = true →
    (p.cleanOptions.concluded out).2.payloadOffset ≤ n + 1

/-- **The option loop ends** in every buffer that holds the datagram and a byte behind it. -/
theorem parseOptions_ends {p : Packet} {buffer : List UInt8} {n : Nat}
    (hbuffer : buffer.length = n + 1)
    (htoken : packetHeaderSize + p.headerInfo.tokenLength.val ≤ n) :
    ∃ hs out, p.EndsInside buffer n hs out := by
  have hfirst : Inside n (packetHeaderSize + p.headerInfo.tokenLength.val) p.firstCursor :=
    ⟨htoken, Nat.le_refl _⟩
  obtain ⟨hs, out, hheads, hgrows, hall⟩ := exists_heads OptionCursor.i (fun _ h => h.1)
    (fun _ h => optionTurn_inside hbuffer h) hfirst
  have hpassed : (p.firstCursor :: hs).length ≤
      n + 1 - (packetHeaderSize + p.headerInfo.tokenLength.val) :=
    length_le_of_grows hgrows fun c hc => ⟨by have := (hall c hc).2; omega,
      Nat.lt_succ_of_le (hall c hc).1⟩
  have hlast := hall out.2 (mem_of_heads hheads)
  refine ⟨hs, out, hheads, ?_, ?_, hgrows, fun c hc => (hall c hc).1, ?_, ?_⟩
  · rw [parseOptions_eq, parseOptionsLoop_eq_loop]
    rw [List.length_cons] at hpassed
    have hloop := hheads.loop (show hs.length < n + 1 by omega)
    rw [firstCursor] at hloop
    rw [hloop]
    rfl
  · -- an iteration is made at a position in front of the end
    rw [List.countP_eq_length_filter]
    refine length_le_of_grows (hgrows.filter _) fun c hc => ?_
    obtain ⟨hmem, hgo⟩ := List.mem_filter.mp hc
    rw [continues, decide_eq_true_iff] at hgo
    have := (hall c hmem).2
    exact ⟨by omega, hgo.2⟩
  · intro hverdict
    obtain ⟨stopped, c⟩ := out
    cases stopped with
    | some e => cases hverdict
    | none =>
      obtain ⟨hi, hcount⟩ := hlast
      show c.options.length ≤ _
      exact Nat.le_sub_of_add_le (by rw [Nat.add_comm]; exact Nat.le_trans hcount hi)
  · intro hverdict
    obtain ⟨stopped, c⟩ := out
    cases stopped with
    | some e => cases hverdict
    | none => exact Nat.succ_le_succ hlast.1

/-- A datagram of seven bytes with a token of one byte, an option and a byte behind it. -/
theorem parseOptions_ends_sample :
    ∃ hs out, EndsInside { Packet.fresh with headerInfo := ⟨1, 0, 1⟩ }
      [0x41, 0x01, 0x00, 0x01, 0x2A, 0xB1, 0x61, 0xFF] 7 hs out :=
  parseOptions_ends rfl (by decide)

end Packet

end LibCoap
