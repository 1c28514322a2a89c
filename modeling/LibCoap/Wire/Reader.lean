import Mathlib.Data.Option.Basic
import LibCoap.Wire.MessageGrammar

/-! # Reading messages

The grammars of options and of messages as functions. A reader of a dialect takes one option after the other
as long as one begins (`readOptions_spec`), and a datagram is a message of the published rules exactly when
`readMessage` gives that message (`readMessage_eq_some`). -/

namespace LibCoap.Wire

variable {D : Dialect}

/-! ## Options -/

/-- The quantity of the nibble `n` before the bytes `b`, and what stands behind its extension. -/
def readExtension (D : Dialect) (n : Nat) (b : List UInt8) : Option (Nat × List UInt8) :=
  if n < 13 then some (n, b)
  else if n = 13 then
    match b with
    | x :: r => some (x.toNat + 13, r)
    | [] => none
  else if n = 14 then
    match b with
    | x :: y :: r => some (D.wide x y, r)
    | _ => none
  else none

/-- A quantity is read exactly where its extension stands. -/
theorem readExtension_eq_some {n v : Nat} {b r : List UInt8} :
    readExtension D n b = some (v, r) ↔ ∃ es, b = es ++ r ∧ Extended D n es v := by
  constructor
  · intro h
    unfold readExtension at h
    split at h
    · next hsmall =>
      cases h
      exact ⟨[], rfl, .short hsmall⟩
    split at h
    · next hbyte =>
      subst hbyte
      split at h
      · next x r' =>
        cases h
        exact ⟨[x], rfl, .byte x⟩
      · cases h
    split at h
    · next hwide =>
      subst hwide
      split at h
      · next x y r' =>
        cases h
        exact ⟨[x, y], rfl, .wide x y⟩
      · cases h
    · cases h
  · rintro ⟨es, rfl, h⟩
    cases h with
    | short small => exact if_pos small
    | byte x => rfl
    | wide x y => rfl

/-- The option that begins at the bytes `b`, and what stands behind it. -/
def readOption (D : Dialect) : List UInt8 → Option (Item × List UInt8)
  | [] => none
  | head :: b => do
    guard (head ≠ D.marker)
    let (delta, b) ← readExtension D (head.toNat / 16) b
    let (length, b) ← readExtension D (head.toNat % 16) b
    guard (length ≤ b.length)
    pure (⟨head, delta, b.take length⟩, b.drop length)

/-- **An option is read exactly where one stands.** -/
theorem readOption_eq_some {b r : List UInt8} {o : Item} :
    readOption D b = some (o, r) ↔ ∃ bs, b = bs ++ r ∧ Encodes D o bs := by
  cases b with
  | nil =>
    refine iff_of_false (fun h => by cases h) ?_
    rintro ⟨bs, hbs, hencodes⟩
    have hpos := hencodes.length_pos
    rw [(List.append_eq_nil_iff.mp hbs.symm).1] at hpos
    exact absurd hpos (Nat.lt_irrefl 0)
  | cons head b =>
    simp only [readOption, Option.bind_eq_bind, Option.bind_eq_some_iff, Option.guard_eq_some',
      Option.pure_def, Option.some.injEq, Prod.mk.injEq, Prod.exists, readExtension_eq_some]
    constructor
    · rintro ⟨-, hmark, delta, b₁, ⟨ds, rfl, hdelta⟩, length, b₂, ⟨ls, rfl, hlength⟩, -, hroom, rfl, rfl⟩
      have hcount : (b₂.take length).length = length := by
        rw [List.length_take]
        exact Nat.min_eq_left hroom
      refine ⟨head :: (ds ++ (ls ++ b₂.take length)), ?_, .intro hmark hdelta (hcount.symm ▸ hlength)⟩
      simp
    · rintro ⟨bs, hbs, hencodes⟩
      obtain @⟨head', ds, ls, value, delta, hmark, hdelta, hlength⟩ := hencodes
      simp only [List.cons_append, List.append_assoc, List.cons.injEq] at hbs
      obtain ⟨rfl, rfl⟩ := hbs
      refine ⟨(), hmark, delta, _, ⟨ds, rfl, hdelta⟩, value.length, _, ⟨ls, rfl, hlength⟩, (), ?_, ?_, ?_⟩
      · rw [List.length_append]
        exact Nat.le_add_right _ _
      · rw [List.take_left]
      · exact List.drop_left

/-- The options at the front of the bytes `b`, at most `fuel` of them, and what stands behind them. -/
def readOptions (D : Dialect) : Nat → List UInt8 → List Item × List UInt8
  | 0, b => ([], b)
  | fuel + 1, b =>
    match readOption D b with
    | none => ([], b)
    | some (o, r) => (o :: (readOptions D fuel r).1, (readOptions D fuel r).2)

/-- **The longest sequence is read**, when there is enough fuel. -/
theorem readOptions_spec {fuel : Nat} {b : List UInt8} (hfuel : b.length ≤ fuel) :
    ∃ bs, b = bs ++ (readOptions D fuel b).2 ∧ Sequence D (readOptions D fuel b).1 bs ∧
      Stops D (readOptions D fuel b).2 := by
  induction fuel generalizing b with
  | zero =>
    obtain rfl : b = [] := List.length_eq_zero_iff.mp (Nat.le_zero.mp hfuel)
    exact ⟨[], rfl, .nil, stops_nil⟩
  | succ fuel ih =>
    rw [readOptions]
    cases hread : readOption D b with
    | none =>
      refine ⟨[], rfl, .nil, fun o bs r hencodes hb => ?_⟩
      rw [readOption_eq_some.mpr ⟨bs, hb, hencodes⟩] at hread
      cases hread
    | some out =>
      obtain ⟨o, r⟩ := out
      obtain ⟨bs, rfl, hencodes⟩ := readOption_eq_some.mp hread
      have hpos := hencodes.length_pos
      rw [List.length_append] at hfuel
      obtain ⟨cs, hr, hsequence, hstops⟩ := ih (b := r) (by omega)
      refine ⟨bs ++ cs, ?_, .cons hencodes hsequence, hstops⟩
      rw [List.append_assoc, ← hr]

/-- A sequence before a rest at which no option begins is what is read. -/
theorem readOptions_eq {fuel : Nat} {bs t : List UInt8} {os : List Item} (h : Sequence D os bs)
    (ht : Stops D t) (hfuel : (bs ++ t).length ≤ fuel) : readOptions D fuel (bs ++ t) = (os, t) := by
  obtain ⟨cs, hb, hsequence, hstops⟩ := readOptions_spec (D := D) hfuel
  obtain ⟨hos, ht'⟩ := hsequence.unique hstops h ht hb.symm
  exact Prod.ext hos ht'

/-! ## Messages -/

/-- The frame of a datagram, if its fixed part is well formed. -/
def readFrame : List UInt8 → Option Frame
  | head :: code :: idHigh :: idLow :: b => do
    let f : Frame := ⟨head, code, idHigh, idLow, b.take (head.toNat % 16), b.drop (head.toNat % 16)⟩
    guard (f.version = 1 ∧ f.tokenLength ≤ 8 ∧ f.tokenLength ≤ b.length)
    pure f
  | _ => none

/-- A frame is read exactly where one stands. -/
theorem readFrame_eq_some {b : List UInt8} {f : Frame} :
    readFrame b = some f ↔ f.Valid ∧ b = f.bytes := by
  constructor
  · intro h
    unfold readFrame at h
    split at h
    · next head code idHigh idLow b =>
      simp only [Option.bind_eq_bind, Option.bind_eq_some_iff, Option.guard_eq_some', Option.pure_def,
        Option.some.injEq] at h
      obtain ⟨-, ⟨hversion, hmax, hlength⟩, rfl⟩ := h
      refine ⟨⟨hversion, ?_, hmax⟩, by simp [Frame.bytes]⟩
      show (b.take (head.toNat % 16)).length = head.toNat % 16
      rw [List.length_take]
      exact Nat.min_eq_left hlength
    · cases h
  · rintro ⟨⟨hversion, hlength, hmax⟩, rfl⟩
    obtain ⟨head, code, idHigh, idLow, token, body⟩ := f
    have htoken : token.length = head.toNat % 16 := hlength
    have hroom : head.toNat % 16 ≤ (token ++ body).length := by
      rw [List.length_append, htoken]
      exact Nat.le_add_right _ _
    simp only [Frame.bytes, readFrame, ← htoken, List.take_left, List.drop_left]
    have hguard : Frame.version ⟨head, code, idHigh, idLow, token, body⟩ = 1 ∧
        Frame.tokenLength ⟨head, code, idHigh, idLow, token, body⟩ ≤ 8 ∧
        Frame.tokenLength ⟨head, code, idHigh, idLow, token, body⟩ ≤ (token ++ body).length :=
      ⟨hversion, hmax, hroom⟩
    show (guard _ >>= fun _ => some _) = _
    rw [guard, if_pos hguard]
    rfl

/-- The payload that the bytes behind the options are. -/
def readPayload (marker : UInt8) : List UInt8 → Option (List UInt8)
  | [] => some []
  | x :: payload => if x = marker ∧ payload ≠ [] then some payload else none

/-- A payload is read exactly where one stands. -/
theorem readPayload_eq_some {marker : UInt8} {t payload : List UInt8} :
    readPayload marker t = some payload ↔ t = payloadBytes marker payload := by
  rw [payloadBytes]
  cases t with
  | nil =>
    constructor
    · intro h
      cases h
      rfl
    · intro h
      split at h
      · next hnil => rw [hnil, readPayload]
      · cases h
  | cons x t =>
    rw [readPayload]
    constructor
    · intro h
      split at h
      · next hmark =>
        cases h
        rw [if_neg hmark.2, hmark.1]
      · cases h
    · intro h
      split at h
      · cases h
      · next hsome =>
        obtain ⟨rfl, rfl⟩ := List.cons.inj h
        exact if_pos ⟨rfl, hsome⟩

/-- The message that a datagram is by the published rules. -/
def readMessage (b : List UInt8) : Option Message := do
  let f ← readFrame b
  let (os, t) := readOptions rfc7252 f.body.length f.body
  let payload ← readPayload rfc7252.marker t
  guard ((os.map Item.delta).sum ≤ 65535)
  pure ⟨f.type, f.code, f.id, f.token, numbered 0 os, payload⟩

/-- **A datagram is read as the message that it is.** -/
theorem readMessage_eq_some {b : List UInt8} {m : Message} : readMessage b = some m ↔ Reads m b := by
  simp only [readMessage, Option.bind_eq_bind, Option.bind_eq_some_iff, Option.guard_eq_some',
    Option.pure_def, Option.some.injEq, readFrame_eq_some, readPayload_eq_some]
  constructor
  · rintro ⟨f, ⟨hf, rfl⟩, payload, ht, -, hsum, rfl⟩
    obtain ⟨bs, hbody, hos, -⟩ := readOptions_spec (D := rfc7252) (Nat.le_refl f.body.length)
    exact ⟨f, _, bs, hf, rfl, hbody.trans (congrArg (bs ++ ·) ht), hos, hsum, rfl⟩
  · rintro ⟨f, os, bs, hf, rfl, hbody, hos, hsum, hm⟩
    have hfuel : (bs ++ payloadBytes rfc7252.marker m.payload).length ≤ f.body.length := by rw [hbody]
    have hread := readOptions_eq hos (stops_payloadBytes rfc7252 m.payload) hfuel
    rw [← hbody] at hread
    refine ⟨f, ⟨hf, rfl⟩, m.payload, ?_, (), ?_, ?_⟩
    · rw [hread]
    · rw [hread]
      exact hsum
    · rw [hread]
      exact hm.symm

/-- Whether a datagram is a given message can be decided. -/
instance (m : Message) (b : List UInt8) : Decidable (Reads m b) :=
  decidable_of_iff _ readMessage_eq_some

end LibCoap.Wire
