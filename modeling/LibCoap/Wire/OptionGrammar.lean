import Mathlib.Algebra.Ring.Nat
import Mathlib.Data.List.Basic

/-! # The grammar of delta-encoded option sequences

An option starts with a head byte whose two nibbles announce the option's *delta* (its distance to
the number of the option before it) and the length of its value. A nibble below `13` is the quantity
itself, `13` and `14` announce one and two extension bytes, and `15` announces nothing. A `Dialect`
fixes what this scheme leaves open: the byte that ends a sequence, and what two extension bytes
denote. The sequences of a dialect are read in one way only (`Sequence.unique`), and every byte
string is a sequence followed by a rest at which no further option begins (`exists_sequence`). -/

namespace LibCoap.Wire

/-- What a reader of option sequences may choose. -/
structure Dialect where
  /-- The byte that stands where an option would start and ends the sequence. -/
  marker : UInt8
  /-- The quantity denoted by the two extension bytes of nibble `14`, in the order they stand. -/
  wide : UInt8 → UInt8 → Nat

/-- `Extended D n bs v`: the nibble `n` with the extension bytes `bs` denotes `v`. -/
inductive Extended (D : Dialect) : Nat → List UInt8 → Nat → Prop where
  | short {n : Nat} (small : n < 13) : Extended D n [] n
  | byte (x : UInt8) : Extended D 13 [x] (x.toNat + 13)
  | wide (x y : UInt8) : Extended D 14 [x, y] (D.wide x y)

/-- One option as it stands in a sequence. -/
structure Item where
  /-- The head byte: delta nibble above, length nibble below. -/
  head : UInt8
  /-- The distance to the number of the option before it. -/
  delta : Nat
  /-- The value bytes. -/
  value : List UInt8
  deriving DecidableEq, Repr

/-- `Encodes D o bs`: the bytes `bs` are the option `o`. -/
inductive Encodes (D : Dialect) : Item → List UInt8 → Prop where
  | intro {head : UInt8} {ds ls value : List UInt8} {delta : Nat} (notMarker : head ≠ D.marker)
      (deltaField : Extended D (head.toNat / 16) ds delta)
      (lengthField : Extended D (head.toNat % 16) ls value.length) :
      Encodes D ⟨head, delta, value⟩ (head :: (ds ++ (ls ++ value)))

/-- `Sequence D os bs`: the bytes `bs` are the options `os`, one behind the other. -/
inductive Sequence (D : Dialect) : List Item → List UInt8 → Prop where
  | nil : Sequence D [] []
  | cons {o : Item} {os : List Item} {bs cs : List UInt8} (first : Encodes D o bs)
      (rest : Sequence D os cs) : Sequence D (o :: os) (bs ++ cs)

/-- No option of the dialect begins at `t`. -/
def Stops (D : Dialect) (t : List UInt8) : Prop :=
  ∀ o bs r, Encodes D o bs → t ≠ bs ++ r

/-- `Cut D t`: the bytes `t` are the start of an option that ends exactly one byte before the end of
its delta extension or of its length extension. -/
inductive Cut (D : Dialect) : List UInt8 → Prop where
  | delta {head x : UInt8} {ds : List UInt8} {delta : Nat} (notMarker : head ≠ D.marker)
      (missing : Extended D (head.toNat / 16) (ds ++ [x]) delta) : Cut D (head :: ds)
  | length {head x : UInt8} {ds ls : List UInt8} {delta length : Nat} (notMarker : head ≠ D.marker)
      (deltaField : Extended D (head.toNat / 16) ds delta)
      (missing : Extended D (head.toNat % 16) (ls ++ [x]) length) : Cut D (head :: (ds ++ ls))

variable {D : Dialect}

/-! ## Reading in one way only -/

/-- The extension of a nibble is determined by the bytes it begins. -/
theorem Extended.unique {n v v' : Nat} {bs bs' r r' : List UInt8} (h : Extended D n bs v)
    (h' : Extended D n bs' v') (heq : bs ++ r = bs' ++ r') : bs = bs' ∧ v = v' ∧ r = r' := by
  cases h with
  | short small =>
    cases h' with
    | short => exact ⟨rfl, rfl, by simpa using heq⟩
    | byte => omega
    | wide => omega
  | byte x =>
    cases h' with
    | short small => omega
    | byte y =>
      simp only [List.singleton_append, List.cons.injEq] at heq
      exact ⟨by rw [heq.1], by rw [heq.1], heq.2⟩
  | wide x y =>
    cases h' with
    | short small => omega
    | wide x' y' =>
      simp only [List.cons_append, List.nil_append, List.cons.injEq] at heq
      obtain ⟨rfl, rfl, rfl⟩ := heq
      exact ⟨rfl, rfl, rfl⟩

/-- Where two extension bytes denote one quantity in one way only, the extension of a nibble is
determined by the quantity it denotes. -/
theorem Extended.spelling {n v v' : Nat} {bs bs' : List UInt8}
    (hwide : ∀ x y x' y', D.wide x y = D.wide x' y' → x = x' ∧ y = y') (h : Extended D n bs v)
    (h' : Extended D n bs' v') (hv : v = v') : bs = bs' := by
  cases h with
  | short small =>
    cases h' with
    | short => rfl
    | byte => omega
    | wide => omega
  | byte x =>
    cases h' with
    | short small => omega
    | byte y =>
      have hxy : x = y := UInt8.toNat_inj.mp (by omega)
      rw [hxy]
  | wide x y =>
    cases h' with
    | short small => omega
    | wide x' y' =>
      obtain ⟨rfl, rfl⟩ := hwide _ _ _ _ hv
      rfl

/-- An option is determined by the bytes it begins. -/
theorem Encodes.unique {o o' : Item} {bs bs' r r' : List UInt8} (h : Encodes D o bs)
    (h' : Encodes D o' bs') (heq : bs ++ r = bs' ++ r') : o = o' ∧ bs = bs' ∧ r = r' := by
  -- head byte, delta field and length field, each of which fixes where the next one begins
  obtain @⟨head, ds, ls, value, delta, -, hd, hl⟩ := h
  obtain @⟨head', ds', ls', value', delta', -, hd', hl'⟩ := h'
  simp only [List.cons_append, List.append_assoc, List.cons.injEq] at heq
  obtain ⟨rfl, heq⟩ := heq
  obtain ⟨rfl, rfl, heq⟩ := hd.unique hd' heq
  obtain ⟨rfl, hlen, heq⟩ := hl.unique hl' heq
  obtain ⟨rfl, rfl⟩ := List.append_inj heq hlen
  exact ⟨rfl, rfl, rfl⟩

/-- An option is at least its head byte. -/
theorem Encodes.length_pos {o : Item} {bs : List UInt8} (h : Encodes D o bs) : 0 < bs.length := by
  cases h; simp

/-- Nothing begins at the end of the input. -/
theorem stops_nil : Stops D [] := by
  intro o bs r h heq
  have hpos := h.length_pos
  rw [List.nil_eq_append_iff] at heq
  simp [heq.1] at hpos

/-- No option begins at the marker. -/
theorem stops_marker (r : List UInt8) : Stops D (D.marker :: r) := by
  rintro o bs r' ⟨notMarker, -, -⟩ heq
  rw [List.cons_append, List.cons.injEq] at heq
  exact notMarker heq.1.symm

/-- No option begins at a head byte whose upper nibble announces nothing. -/
theorem stops_reserved {x : UInt8} (hx : x.toNat / 16 = 15) (r : List UInt8) : Stops D (x :: r) := by
  rintro o bs r' ⟨-, deltaField, -⟩ heq
  rw [List.cons_append, List.cons.injEq] at heq
  rw [← heq.1, hx] at deltaField
  -- no field has the nibble 15
  cases deltaField
  omega

/-- **A sequence is read in one way only**: the options and the rest behind them are determined by
the bytes, once no option begins at the rest. -/
theorem Sequence.unique {os os' : List Item} {bs bs' t t' : List UInt8} (h : Sequence D os bs)
    (ht : Stops D t) (h' : Sequence D os' bs') (ht' : Stops D t') (heq : bs ++ t = bs' ++ t') :
    os = os' ∧ t = t' := by
  -- option by option: the first ones agree, and so do the sequences behind them
  induction h generalizing os' bs' with
  | nil =>
    cases h' with
    | nil => exact ⟨rfl, by simpa using heq⟩
    | cons first rest => exact absurd (by simpa using heq) (ht _ _ _ first)
  | cons first rest ih =>
    cases h' with
    | nil => exact absurd (by simpa using heq.symm) (ht' _ _ _ first)
    | cons first' rest' =>
      rw [List.append_assoc, List.append_assoc] at heq
      obtain ⟨rfl, -, heq⟩ := first.unique first' heq
      obtain ⟨rfl, rfl⟩ := ih rest' heq
      exact ⟨rfl, rfl⟩

/-- Every option of a sequence takes at least one byte. -/
theorem Sequence.length_le {os : List Item} {bs : List UInt8} (h : Sequence D os bs) :
    os.length ≤ bs.length := by
  induction h with
  | nil => simp
  | cons first rest ih =>
    have := first.length_pos
    simp only [List.length_cons, List.length_append]
    omega

/-- No option begins at `t` that both dialects read alike. -/
def Parts (D E : Dialect) (t : List UInt8) : Prop :=
  ∀ o bs r, Encodes D o bs → Encodes E o bs → t ≠ bs ++ r

/-- **Every byte string is a sequence that both dialects read alike**, and a rest at which they part. -/
theorem exists_alike (D E : Dialect) (b : List UInt8) :
    ∃ os bs t, b = bs ++ t ∧ Sequence D os bs ∧ Sequence E os bs ∧ Parts D E t := by
  -- by the length: an option that both read alike leaves a shorter string
  induction hn : b.length using Nat.strongRecOn generalizing b with
  | ind n ih =>
    by_cases hpart : Parts D E b
    · exact ⟨[], [], b, rfl, .nil, .nil, hpart⟩
    · simp only [Parts, not_forall, not_not] at hpart
      obtain ⟨o, bs, r, hfirst, hfirst', rfl⟩ := hpart
      have hlt : r.length < n := by
        have := hfirst.length_pos
        rw [List.length_append] at hn
        omega
      obtain ⟨os, cs, t, rfl, hrest, hrest', ht⟩ := ih _ hlt r rfl
      exact ⟨o :: os, bs ++ cs, t, (List.append_assoc ..).symm, .cons hfirst hrest, .cons hfirst' hrest', ht⟩

/-- **Every byte string is a sequence of options and a rest at which no option begins.** -/
theorem exists_sequence (D : Dialect) (b : List UInt8) :
    ∃ os bs t, b = bs ++ t ∧ Sequence D os bs ∧ Stops D t := by
  obtain ⟨os, bs, t, hb, hos, -, hparts⟩ := exists_alike D D b
  exact ⟨os, bs, t, hb, hos, fun o bs r hfirst => hparts o bs r hfirst hfirst⟩

/-- Two sequences behind each other. -/
theorem Sequence.append {os os' : List Item} {bs bs' : List UInt8} (h : Sequence D os bs)
    (h' : Sequence D os' bs') : Sequence D (os ++ os') (bs ++ bs') := by
  induction h with
  | nil => exact h'
  | cons first rest ih =>
    rw [List.cons_append, List.append_assoc]
    exact .cons first ih

/-- The first options of a sequence are a sequence, and so are the others. -/
theorem Sequence.of_append {os os' : List Item} {bs : List UInt8} (h : Sequence D (os ++ os') bs) :
    ∃ cs cs', bs = cs ++ cs' ∧ Sequence D os cs ∧ Sequence D os' cs' := by
  induction os generalizing bs with
  | nil => exact ⟨[], bs, rfl, .nil, h⟩
  | cons o os ih =>
    rw [List.cons_append] at h
    cases h with
    | cons first rest =>
      obtain ⟨cs, cs', rfl, hos, hos'⟩ := ih rest
      exact ⟨_, cs', (List.append_assoc ..).symm, .cons first hos, hos'⟩

/-- **Going on behind a sequence**: what is read of the whole is what is read of the rest, behind the options
of the sequence. -/
theorem Sequence.continues {os os' : List Item} {bs bs' t t' : List UInt8} (h : Sequence D os bs)
    (h' : Sequence D os' bs') (ht' : Stops D t') (heq : bs ++ t = bs' ++ t') :
    ∃ more cs, os' = os ++ more ∧ t = cs ++ t' ∧ Sequence D more cs := by
  -- along the options in front, with which the whole begins
  induction h generalizing os' bs' with
  | nil => exact ⟨os', bs', rfl, by simpa using heq, h'⟩
  | cons first rest ih =>
    cases h' with
    | nil => exact absurd (by simpa using heq.symm) (ht' _ _ _ first)
    | cons first' rest' =>
      rw [List.append_assoc, List.append_assoc] at heq
      obtain ⟨rfl, -, heq⟩ := first.unique first' heq
      obtain ⟨more, cs, rfl, ht, hmore⟩ := ih rest' heq
      exact ⟨more, cs, rfl, ht, hmore⟩

/-- **The longest sequence**: every sequence at the front of the same bytes is a part of the one
behind which no option begins. -/
theorem Sequence.longest {os os' : List Item} {bs bs' t t' : List UInt8}
    (h : Sequence D os bs) (ht : Stops D t) (h' : Sequence D os' bs') (heq : bs ++ t = bs' ++ t') :
    os' <+: os := by
  obtain ⟨more, -, rfl, -⟩ := h'.continues h ht heq.symm
  exact List.prefix_append os' more

/-! ## Where two dialects part -/

/-- An extension stands in every dialect. -/
theorem Extended.exists_other (E : Dialect) {n v : Nat} {bs : List UInt8} (h : Extended D n bs v) :
    ∃ v', Extended E n bs v' := by
  cases h with
  | short small => exact ⟨_, .short small⟩
  | byte x => exact ⟨_, .byte x⟩
  | wide x y => exact ⟨_, .wide x y⟩

/-- It denotes the same unless it has two bytes that denote something else. -/
theorem Extended.other {E : Dialect} {n v : Nat} {bs : List UInt8} (h : Extended D n bs v)
    (hwide : ∀ x y, n = 14 → bs = [x, y] → D.wide x y = E.wide x y) : Extended E n bs v := by
  cases h with
  | short small => exact .short small
  | byte x => exact .byte x
  | wide x y =>
    rw [hwide x y rfl rfl]
    exact .wide x y

/-- An option begins at `t` with two extension bytes, of its delta or behind that of its length, that denote
one quantity in one of the dialects and another one in the other. -/
def Disputed (D E : Dialect) (t : List UInt8) : Prop :=
  ∃ head ds x y r, t = head :: (ds ++ x :: y :: r) ∧ D.wide x y ≠ E.wide x y ∧
    (head.toNat / 16 = 14 ∧ ds = [] ∨ head.toNat % 16 = 14 ∧ ∃ delta, Extended D (head.toNat / 16) ds delta)

/-- The order of the dialects does not matter. -/
theorem Disputed.symm {E : Dialect} {t : List UInt8} (h : Disputed D E t) : Disputed E D t := by
  obtain ⟨head, ds, x, y, r, ht, hne, hfield⟩ := h
  refine ⟨head, ds, x, y, r, ht, hne.symm, hfield.imp_right ?_⟩
  rintro ⟨hlength, delta, hdelta⟩
  exact ⟨hlength, hdelta.exists_other E⟩

/-- **An option of one dialect that the other one reads otherwise** begins with disputed bytes, unless it begins
with the marker of the other one. -/
theorem Encodes.disputed {E : Dialect} {o : Item} {bs : List UInt8} (h : Encodes D o bs)
    (hmarker : o.head ≠ E.marker) (hother : ¬Encodes E o bs) (r : List UInt8) : Disputed D E (bs ++ r) := by
  obtain @⟨head, ds, ls, value, delta, -, hd, hl⟩ := h
  -- if neither field were disputed, the bytes would be the same option in the other dialect
  by_contra hnot
  refine hother (.intro hmarker (hd.other fun x y hn hds => ?_) (hl.other fun x y hn hls => ?_))
  · by_contra hne
    subst hds
    exact hnot ⟨head, [], x, y, ls ++ value ++ r, by simp, hne, .inl ⟨hn, rfl⟩⟩
  · by_contra hne
    subst hls
    exact hnot ⟨head, ds, x, y, value ++ r, by simp, hne, .inr ⟨hn, delta, hd⟩⟩

/-! ## Option numbers -/

/-- The options of a sequence with their numbers: each delta is added to the number before it. -/
def numbered : Nat → List Item → List (Nat × List UInt8)
  | _, [] => []
  | n, o :: os => (n + o.delta, o.value) :: numbered (n + o.delta) os

/-! ## Sizes -/

/-- A quantity that needs no two extension bytes has one from `13` on. -/
theorem Extended.length_small {n v : Nat} {bs : List UInt8} (hwide : ∀ x y, 269 ≤ D.wide x y)
    (h : Extended D n bs v) (hv : v ≤ 268) : bs.length = if 13 ≤ v then 1 else 0 := by
  cases h with
  | short small => rw [if_neg (by omega), List.length_nil]
  | byte x => rw [if_pos (by omega), List.length_singleton]
  | wide x y =>
    have := hwide x y
    omega

/-- The size of an option without two-byte extensions. -/
theorem Encodes.length_small {o : Item} {bs : List UInt8} (hwide : ∀ x y, 269 ≤ D.wide x y)
    (h : Encodes D o bs) (hdelta : o.delta ≤ 268) (hvalue : o.value.length ≤ 268) :
    bs.length = 1 + (if 13 ≤ o.delta then 1 else 0) + (if 13 ≤ o.value.length then 1 else 0) +
      o.value.length := by
  obtain @⟨head, ds, ls, value, delta, -, hd, hl⟩ := h
  have hds := hd.length_small hwide hdelta
  have hls := hl.length_small hwide hvalue
  simp only [List.length_cons, List.length_append]
  omega

/-! ## Unsigned-integer values -/

/-- The number that the bytes of a value denote, the first byte being the most significant. -/
def uintValue (value : List UInt8) : Nat := value.foldl (fun v x => 256 * v + x.toNat) 0

/-- A leading zero byte changes nothing. -/
@[simp] theorem uintValue_zero_cons (value : List UInt8) :
    uintValue (0 :: value) = uintValue value := rfl

end LibCoap.Wire
