import LibCoap.Packet.Acceptance

/-! # Which datagrams the parser misjudges

The parser and the published grammar differ in three things: the marker, the order of the two bytes of a wide
extension, and the bound on the option numbers. A well-formed fixed part is followed by options that both read
alike, and what stands where they part decides whether the parser is right (`parse_accepts_messages_iff`): an
end or a published payload, which it refuses; a head byte `00`, where it accepts; or an option that the two byte
orders read differently, behind which each of them goes on by itself. -/

namespace LibCoap

open Wire

/-- Behind a well-formed fixed part, the options in front of `t` are read alike in both byte orders, and their
deltas add up to `n`. -/
def ReadAlike (b : List UInt8) (n : Nat) (t : List UInt8) : Prop :=
  ∃ (f : Frame) (os : List Item) (bs : List UInt8), f.Valid ∧ b = f.bytes ∧ f.body = bs ++ t ∧
    Sequence sourceDialect os bs ∧ Sequence rfc7252 os bs ∧ (os.map Item.delta).sum = n

/-- The bytes `t`, read with the low byte first, come to a byte `00` where an option would start. -/
def MeetsZero (t : List UInt8) : Prop :=
  ∃ os bs payload, t = bs ++ 0 :: payload ∧ Sequence sourceDialect os bs

/-- The bytes `t`, read in network order from the option number `n` on, come to the end or to `FF` and a
payload, at a number of 16 bits. -/
def Completes (n : Nat) (t : List UInt8) : Prop :=
  ∃ os bs payload, t = bs ++ payloadBytes 0xFF payload ∧ Sequence rfc7252 os bs ∧
    n + (os.map Item.delta).sum ≤ 65535

/-- **The datagrams that the parser misjudges**: a message whose options are read alike and hold no head byte
`00`; a head byte `00` behind such options with something behind it that completes no message; and an option
that is read otherwise, where one of the two readings alone comes through. -/
inductive Misjudged (b : List UInt8) : Prop where
  | published {n : Nat} {payload : List UInt8} (alike : ReadAlike b n (payloadBytes 0xFF payload))
      (number : n ≤ 65535)
  | zero {n : Nat} {r : List UInt8} (alike : ReadAlike b n (0 :: r)) (broken : ¬Completes n r)
  | swapped {n : Nat} {t : List UInt8} (alike : ReadAlike b n t)
      (disputed : Disputed sourceDialect rfc7252 t) (differ : MeetsZero t ↔ ¬Completes n t)

variable {b r t : List UInt8} {n : Nat}

/-- **Where the parser goes on** behind options that are read alike. -/
theorem ReadAlike.marked_iff (h : ReadAlike b n t) : Marked b ↔ MeetsZero t := by
  obtain ⟨f, os, bs, hf, rfl, hbody, hos, -, -⟩ := h
  constructor
  · rintro ⟨payload, f', os', bs', hf', hbytes, hbody', hos'⟩
    obtain rfl := hf.unique hf' hbytes
    obtain ⟨more, cs, -, ht, hmore⟩ :=
      hos.continues hos' (stops_marker payload) (hbody.symm.trans hbody')
    exact ⟨more, cs, payload, ht, hmore⟩
  · rintro ⟨more, cs, payload, rfl, hmore⟩
    exact ⟨payload, f, os ++ more, bs ++ cs, hf, rfl, by rw [hbody, List.append_assoc]; rfl,
      hos.append hmore⟩

/-- **Where the published grammar goes on.** -/
theorem ReadAlike.message_iff (h : ReadAlike b n t) : (∃ m, Reads m b) ↔ Completes n t := by
  obtain ⟨f, os, bs, hf, rfl, hbody, -, hos, rfl⟩ := h
  constructor
  · rintro ⟨m, f', os', bs', hf', hbytes, hbody', hos', hnumber, -⟩
    obtain rfl := hf.unique hf' hbytes
    obtain ⟨more, cs, rfl, ht, hmore⟩ :=
      hos.continues hos' (stops_payloadBytes rfc7252 m.payload) (hbody.symm.trans hbody')
    rw [List.map_append, List.sum_append] at hnumber
    exact ⟨more, cs, m.payload, ht, hmore, hnumber⟩
  · rintro ⟨more, cs, payload, rfl, hmore, hnumber⟩
    refine ⟨⟨f.type, f.code, f.id, f.token, numbered 0 (os ++ more), payload⟩, f, os ++ more, bs ++ cs, hf,
      rfl, ?_, hos.append hmore, ?_, rfl⟩
    · rw [hbody, List.append_assoc]
      rfl
    · rw [List.map_append, List.sum_append]
      exact hnumber

/-- A head byte `00` is met at once. -/
theorem meetsZero_cons (r : List UInt8) : MeetsZero (0 :: r) := ⟨[], [], r, rfl, .nil⟩

/-- In the published grammar a head byte `00` is an option without delta and value. -/
theorem completes_zero_cons : Completes n (0 :: r) ↔ Completes n r := by
  have hzero : Encodes rfc7252 ⟨0, 0, []⟩ [0] :=
    @Encodes.intro rfc7252 0 [] [] [] 0 (by decide) (.short (by decide)) (.short (by decide))
  constructor
  · rintro ⟨os, bs, payload, ht, hos, hnumber⟩
    obtain ⟨more, cs, rfl, hr, hmore⟩ := (Sequence.cons hzero .nil).continues hos
      (stops_payloadBytes rfc7252 payload) ht
    refine ⟨more, cs, payload, hr, hmore, ?_⟩
    simpa using hnumber
  · rintro ⟨os, bs, payload, rfl, hos, hnumber⟩
    exact ⟨_, [0] ++ bs, payload, rfl, .cons hzero hos, by simpa using hnumber⟩

/-- Where a published payload stands, no byte `00` is met. -/
theorem not_meetsZero_payloadBytes (payload : List UInt8) : ¬MeetsZero (payloadBytes 0xFF payload) := by
  rintro ⟨os, bs, rest, ht, hos⟩
  have hstops : Stops sourceDialect (payloadBytes 0xFF payload) := by
    unfold payloadBytes
    split
    · exact stops_nil
    · exact stops_reserved (by decide) payload
  have hend := (Sequence.nil.unique hstops hos (stops_marker rest) ht).2
  unfold payloadBytes at hend
  split at hend
  · cases hend
  · exact absurd (List.cons.inj hend).1 (by decide)

/-- **Where the two byte orders part.** When only one of the readings comes through from there on, it is at a
published payload, at a byte `00` or at disputed bytes. -/
theorem ReadAlike.misjudged (h : ReadAlike b n t) (hparts : Parts sourceDialect rfc7252 t)
    (hdiffer : MeetsZero t ↔ ¬Completes n t) : Misjudged b := by
  by_cases hzero : ∃ r, t = 0 :: r
  · obtain ⟨r, rfl⟩ := hzero
    exact .zero h (mt completes_zero_cons.mpr (hdiffer.mp (meetsZero_cons r)))
  by_cases hmeets : MeetsZero t
  · refine .swapped h ?_ hdiffer
    obtain ⟨os, bs, payload, rfl, hos⟩ := hmeets
    cases hos with
    | nil => exact absurd ⟨payload, rfl⟩ hzero
    | cons first rest =>
      rw [List.append_assoc] at hparts ⊢
      refine first.disputed ?_ (fun hother => hparts _ _ _ first hother rfl) _
      -- the marker of the published grammar announces nothing
      obtain @⟨head, ds, ls, value, delta, -, hd, -⟩ := first
      rintro rfl
      have hreserved : rfc7252.marker.toNat / 16 = 15 := by decide
      rw [hreserved] at hd
      cases hd
      omega
  · obtain ⟨os, bs, payload, rfl, hos, hnumber⟩ := not_not.mp (mt hdiffer.mpr hmeets)
    cases hos with
    | nil => exact .published h (Nat.le_of_add_right_le hnumber)
    | cons first rest =>
      refine .swapped h ?_ hdiffer
      rw [List.append_assoc] at hparts hzero ⊢
      refine (first.disputed ?_ (fun hother => hparts _ _ _ hother first rfl) _).symm
      obtain @⟨head, ds, ls, value, delta, -, -, -⟩ := first
      rintro rfl
      exact hzero ⟨_, rfl⟩

namespace Packet

/-- **When `parse` accepts what the published grammar accepts**: exactly for the datagrams that are not
misjudged. -/
theorem parse_accepts_messages_iff (b : List UInt8) :
    ((∃ q, Packet.fresh.parse b b.length = .ok (true, q)) ↔ ∃ m, Reads m b) ↔ ¬Misjudged b := by
  rw [parse_accepts_iff]
  constructor
  · rintro hright (⟨alike, number⟩ | ⟨alike, broken⟩ | ⟨alike, -, differ⟩)
    · rw [alike.marked_iff, alike.message_iff] at hright
      exact not_meetsZero_payloadBytes _ (hright.mpr ⟨[], [], _, rfl, .nil, number⟩)
    · rw [alike.marked_iff, alike.message_iff, completes_zero_cons] at hright
      exact broken (hright.mp (meetsZero_cons _))
    · rw [alike.marked_iff, alike.message_iff, differ] at hright
      exact not_iff_self hright
  · intro hnot
    by_contra hwrong
    -- what is accepted, and what is a message, has a well-formed fixed part
    have hframe : ∃ f : Frame, f.Valid ∧ b = f.bytes := by
      by_contra hnone
      refine hwrong (iff_of_false ?_ ?_)
      · rintro ⟨payload, f, os, bs, hf, hb, -⟩
        exact hnone ⟨f, hf, hb⟩
      · rintro ⟨m, f, os, bs, hf, hb, -⟩
        exact hnone ⟨f, hf, hb⟩
    obtain ⟨f, hf, hb⟩ := hframe
    obtain ⟨os, bs, t, hbody, hos, hos', hparts⟩ := exists_alike sourceDialect rfc7252 f.body
    have halike : ReadAlike b _ t := ⟨f, os, bs, hf, hb, hbody, hos, hos', rfl⟩
    rw [halike.marked_iff, halike.message_iff] at hwrong
    exact hnot (halike.misjudged hparts (iff_not_comm.mp (not_iff.mp hwrong).symm))

/-- A message whose payload stands behind the published marker `0xFF` is not accepted. -/
theorem parse_published_marker :
    ¬((∃ q, Packet.fresh.parse [0x40, 0x01, 0x00, 0x01, 0xFF, 0x2A] 6 = .ok (true, q)) ↔
      ∃ m, Reads m [0x40, 0x01, 0x00, 0x01, 0xFF, 0x2A]) := by
  intro h
  have hreads : ∃ m, Reads m [0x40, 0x01, 0x00, 0x01, 0xFF, 0x2A] :=
    ⟨⟨0, 0x01, 1, [], [], [0x2A]⟩, ⟨0x40, 0x01, 0x00, 0x01, [], [0xFF, 0x2A]⟩, [], [],
      ⟨by decide, by decide, by decide⟩, rfl, rfl, .nil, by decide, by decide⟩
  obtain ⟨q, hq⟩ := h.mpr hreads
  have hverdict : (Packet.fresh.parse [0x40, 0x01, 0x00, 0x01, 0xFF, 0x2A] 6).map Prod.fst =
      .ok false := by decide
  rw [hq] at hverdict
  cases hverdict

end Packet

end LibCoap
