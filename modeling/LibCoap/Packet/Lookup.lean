import LibCoap.Machine.Bisection
import LibCoap.Packet.Operations

/-! # What `find_options` finds

In options ordered by their numbers, those with a number are a run: `countBelow` options stand in
front of it and `countEqual` options are in it. `find_options` meets the run by halves, goes down to
the option in front of it, and counts up to the option behind it. Both of these options are read, so
a lookup stays in range only when they exist (`LookUpInRange`); then it finds an option of the run and
the length of the run. Where in the run the pointer stands depends on the halving alone. -/

namespace LibCoap

open Machine

/-- How many options have a smaller number. -/
def countBelow (options : List PacketOption) (number : UInt16) : Nat :=
  options.countP (·.number < number)

/-- How many options have the number. -/
def countEqual (options : List PacketOption) (number : UInt16) : Nat :=
  options.countP (·.number = number)

/-- The options that `find_options` reads beside those with the number exist: there is a greater
number, and when the number itself is there, a smaller one. -/
def LookUpInRange (options : List PacketOption) (number : UInt16) : Prop :=
  (∃ opt ∈ options, number < opt.number) ∧
    ((∃ opt ∈ options, opt.number = number) → ∃ opt ∈ options, opt.number < number)

/-- The lookup, with the position that the returned pointer addresses. -/
def lookUpAt (options : List PacketOption) (number : UInt16) : Exec (Option Int × Nat) := do
  let fuel := options.length + 2
  match ← searchOptions options number fuel 0 options.length with
  | some (mid, min) =>
    let index ← scanDown options number min fuel mid
    let quantity ← scanUp options number fuel index 0
    pure (some mid, quantity)
  | none => pure (none, 0)

section Counting

variable (options : List PacketOption) (number : UInt16)

/-- The options up to the end of the run. -/
theorem countP_le_eq :
    options.countP (·.number ≤ number) = countBelow options number + countEqual options number := by
  rw [countBelow, countEqual]
  induction options with
  | nil => rfl
  | cons opt options ih =>
    have hle : opt.number ≤ number ↔ opt.number.toNat ≤ number.toNat := UInt16.le_iff_toNat_le
    have hlt : opt.number < number ↔ opt.number.toNat < number.toNat := UInt16.lt_iff_toNat_lt
    have heq : opt.number = number ↔ opt.number.toNat = number.toNat := UInt16.toNat_inj.symm
    simp only [List.countP_cons, ih, decide_eq_true_eq, hle, hlt, heq]
    split <;> split <;> split <;> omega

/-- The run lies within the options. -/
theorem countBelow_add_le : countBelow options number + countEqual options number ≤
    options.length := by
  rw [← countP_le_eq]
  exact List.countP_le_length

/-- There are options behind the run exactly when there is a greater number. -/
theorem countBelow_add_lt_iff :
    countBelow options number + countEqual options number < options.length ↔
      ∃ opt ∈ options, number < opt.number := by
  have hle := countBelow_add_le options number
  have hall := List.countP_eq_length (p := fun opt : PacketOption => decide (opt.number ≤ number))
    (l := options)
  rw [countP_le_eq] at hall
  constructor
  · intro hlt
    by_contra hnone
    have := hall.mpr fun opt hopt =>
      decide_eq_true (UInt16.not_lt.mp fun hgreater => hnone ⟨opt, hopt, hgreater⟩)
    omega
  · rintro ⟨opt, hopt, hgreater⟩
    refine Nat.lt_of_le_of_ne hle fun heq => ?_
    exact UInt16.not_le.mpr hgreater (of_decide_eq_true (hall.mp heq opt hopt))

/-- There are options in front of the run exactly when there is a smaller number. -/
theorem countBelow_pos_iff : 0 < countBelow options number ↔ ∃ opt ∈ options, opt.number < number := by
  simp [countBelow, List.countP_pos_iff]

/-- The run is not empty exactly when the number is there. -/
theorem countEqual_pos_iff : 0 < countEqual options number ↔ ∃ opt ∈ options, opt.number = number := by
  simp [countEqual, List.countP_pos_iff]

/-- Being in range is a matter of the counts. -/
theorem lookUpInRange_iff : LookUpInRange options number ↔
    countBelow options number + countEqual options number < options.length ∧
      (0 < countEqual options number → 0 < countBelow options number) := by
  rw [countBelow_add_lt_iff, countBelow_pos_iff, countEqual_pos_iff]
  rfl

end Counting

/-! ## The search by halves -/

/-- The comparison of the search with the option at a position. -/
def probe (options : List PacketOption) (number : UInt16) (i : Int) : Exec Ordering :=
  (readAtInt options i).map fun opt => compare opt.number.toNat number.toNat

/-- **The outer loop of `find_options` is a search by halves.** -/
theorem searchOptions_eq_bisect (options : List PacketOption) (number : UInt16) (fuel : Nat)
    (min max : Int) :
    searchOptions options number fuel min max = bisect (probe options number) fuel min max := by
  induction fuel generalizing min max with
  | zero => rfl
  | succ fuel ih =>
    have hmid : (min + max) >>> (1 : Nat) = (min + max) / 2 := Int.shiftRight_eq_div_pow _ 1
    rw [searchOptions, bisect, hmid]
    by_cases hle : min ≤ max
    · rw [if_pos hle, if_pos hle, probe]
      dsimp only
      cases hread : readAtInt options ((min + max) / 2) with
      | error e => rfl
      | ok opt =>
        have hlt : opt.number < number ↔ opt.number.toNat < number.toNat := UInt16.lt_iff_toNat_lt
        have hgt : opt.number > number ↔ number.toNat < opt.number.toNat := UInt16.lt_iff_toNat_lt
        simp only [ok_bind, Except.map]
        -- the three outcomes of a comparison
        rcases Nat.lt_trichotomy opt.number.toNat number.toNat with h | h | h
        · rw [if_pos (hlt.mpr h), Nat.compare_eq_lt.mpr h]
          exact ih _ _
        · rw [if_neg (fun h' => by have := hlt.mp h'; omega),
            if_neg (fun h' => by have := hgt.mp h'; omega), Nat.compare_eq_eq.mpr h]
        · rw [if_neg (fun h' => by have := hlt.mp h'; omega), if_pos (hgt.mpr h),
            Nat.compare_eq_gt.mpr h]
          exact ih _ _
    · rw [if_neg hle, if_neg hle]

/-- Outside of the options a read faults. -/
theorem read_outside {options : List PacketOption} {i : Int}
    (h : i < 0 ∨ options.length ≤ i) : readAtInt options i = .error .outOfRange := by
  rw [readAtInt]
  split
  · exact readAt_of_length_le (by omega)
  · rfl

section Ordered

variable {options : List PacketOption} (hordered : options.Pairwise (·.number ≤ ·.number))

include hordered

/-- An option is read at each position, and its place tells how it compares with the run. -/
theorem read_zone (number : UInt16) {i : Int} (h₀ : 0 ≤ i) (hi : i < options.length) :
    ∃ opt, readAtInt options i = .ok opt ∧
      (opt.number < number ↔ i < countBelow options number) ∧
      (opt.number ≤ number ↔ i < countBelow options number + countEqual options number) := by
  obtain ⟨k, rfl⟩ := Int.eq_ofNat_of_zero_le h₀
  have hk : k < options.length := by omega
  have hget : options[k]? = some options[k] := List.getElem?_eq_getElem hk
  -- both properties are passed on to smaller numbers
  have hbelow := countP_boundary (p := fun opt : PacketOption => decide (opt.number < number))
    (hordered.imp fun hab hb =>
      decide_eq_true (UInt16.lt_of_le_of_lt hab (of_decide_eq_true hb))) hget
  have hupto := countP_boundary (p := fun opt : PacketOption => decide (opt.number ≤ number))
    (hordered.imp fun hab hb =>
      decide_eq_true (UInt16.le_trans hab (of_decide_eq_true hb))) hget
  rw [decide_eq_true_eq] at hbelow hupto
  rw [countP_le_eq] at hupto
  refine ⟨options[k], ?_, ?_, ?_⟩
  · rw [readAtInt, if_pos h₀]
    exact readAt_eq_ok.mpr hget
  · rw [hbelow, countBelow]
    omega
  · rw [hupto]
    omega

/-- In front of the run the numbers are smaller. -/
theorem read_front (number : UInt16) {i : Int} (h₀ : 0 ≤ i) (hi : i < countBelow options number) :
    ∃ opt, readAtInt options i = .ok opt ∧ opt.number < number := by
  have hle := countBelow_add_le options number
  obtain ⟨opt, hread, hbelow, -⟩ := read_zone hordered number h₀ (by omega)
  exact ⟨opt, hread, hbelow.mpr hi⟩

/-- In the run they are the number. -/
theorem read_run (number : UInt16) {i : Int} (hlo : countBelow options number ≤ i)
    (hhi : i < (countBelow options number + countEqual options number : Nat)) :
    ∃ opt, readAtInt options i = .ok opt ∧ opt.number = number := by
  have hle := countBelow_add_le options number
  have h₀ : 0 ≤ i := by omega
  obtain ⟨opt, hread, hbelow, hupto⟩ := read_zone hordered number h₀ (by omega)
  have hnlt : ¬opt.number < number := fun h => by
    have := hbelow.mp h
    omega
  exact ⟨opt, hread, UInt16.le_antisymm (hupto.mpr (by omega)) (UInt16.not_lt.mp hnlt)⟩

/-- Behind the run they are greater. -/
theorem read_behind (number : UInt16) {i : Int}
    (hlo : (countBelow options number + countEqual options number : Nat) ≤ i)
    (hhi : i < options.length) :
    ∃ opt, readAtInt options i = .ok opt ∧ number < opt.number := by
  have h₀ : 0 ≤ i := by omega
  obtain ⟨opt, hread, -, hupto⟩ := read_zone hordered number h₀ hhi
  refine ⟨opt, hread, UInt16.not_le.mp fun h => ?_⟩
  have := hupto.mp h
  omega

/-- The comparison sees the options in front of the run as smaller, those behind it as greater. -/
theorem probe_classifies (number : UInt16) :
    Classifies (probe options number) (countBelow options number)
      (countBelow options number + countEqual options number : Nat) options.length := by
  have hcompare {i : Int} {opt : PacketOption} (hread : readAtInt options i = .ok opt) :
      probe options number i = .ok (compare opt.number.toNat number.toNat) := by
    rw [probe, hread]
    rfl
  constructor
  · intro i h₀ hi
    obtain ⟨opt, hread, hlt⟩ := read_front hordered number h₀ hi
    rw [hcompare hread, Nat.compare_eq_lt.mpr (UInt16.lt_iff_toNat_lt.mp hlt)]
  · intro i hlo hhi
    obtain ⟨opt, hread, heq⟩ := read_run hordered number hlo hhi
    rw [hcompare hread, Nat.compare_eq_eq.mpr (congrArg UInt16.toNat heq)]
  · intro i hlo hhi
    obtain ⟨opt, hread, hgt⟩ := read_behind hordered number hlo hhi
    rw [hcompare hread, Nat.compare_eq_gt.mpr (UInt16.lt_iff_toNat_lt.mp hgt)]
  · intro i hi
    rw [probe, read_outside (.inr hi)]
    rfl
  · have hle := countBelow_add_le options number
    omega

/-! ## The two scans -/

variable {number : UInt16}

/-- **The first scan** goes down to the option in front of the run, which must exist. -/
theorem scanDown_eq {min index : Int} {fuel : Nat} (hmin : min ≤ countBelow options number)
    (hlo : countBelow options number ≤ index)
    (hhi : index < (countBelow options number + countEqual options number : Nat))
    (hfuel : index - countBelow options number < fuel) :
    scanDown options number min fuel index =
      if 0 < countBelow options number then .ok (countBelow options number - 1)
      else .error .outOfRange := by
  induction fuel generalizing index with
  | zero => omega
  | succ fuel ih =>
    rw [scanDown, if_pos (show index ≥ min by omega)]
    by_cases hfirst : index = countBelow options number
    · by_cases hfront : 0 < countBelow options number
      · -- the option in front of the run
        obtain ⟨opt, hread, hlt⟩ :=
          read_front hordered number (show 0 ≤ index - 1 by omega) (by omega)
        rw [hread, ok_bind, if_pos (UInt16.ne_of_lt hlt), if_pos hfront, hfirst]
        rfl
      · rw [read_outside (.inl (by omega)), if_neg hfront]
        rfl
    · obtain ⟨opt, hread, heq⟩ :=
        read_run hordered number (show _ ≤ index - 1 by omega) (by omega)
      rw [hread, ok_bind, if_neg (fun hne => hne heq)]
      exact ih (by omega) (by omega) (by omega)

/-- **The second scan** counts the rest of the run up to the option behind it, which must exist. -/
theorem scanUp_eq {index : Int} {quantity fuel : Nat} (hlo : countBelow options number ≤ index + 1)
    (hhi : index + 1 ≤ (countBelow options number + countEqual options number : Nat))
    (hfuel : (countBelow options number + countEqual options number : Nat) - (index + 1) < fuel) :
    scanUp options number fuel index quantity =
      if countBelow options number + countEqual options number < options.length then
        .ok (quantity +
          ((countBelow options number + countEqual options number : Nat) - (index + 1)).toNat)
      else .error .outOfRange := by
  induction fuel generalizing index quantity with
  | zero => omega
  | succ fuel ih =>
    rw [scanUp]
    by_cases hend : index + 1 = (countBelow options number + countEqual options number : Nat)
    · by_cases hbehind : countBelow options number + countEqual options number < options.length
      · -- the option behind the run
        obtain ⟨opt, hread, hgt⟩ :=
          read_behind hordered number (show _ ≤ index + 1 by omega) (by omega)
        rw [hread, ok_bind, if_neg (UInt16.ne_of_lt hgt).symm, if_pos hbehind, hend, Int.sub_self]
        rfl
      · rw [read_outside (.inr (by omega)), if_neg hbehind]
        rfl
    · obtain ⟨opt, hread, heq⟩ := read_run hordered number hlo (by omega)
      rw [hread, ok_bind, if_pos heq, ih (by omega) (by omega) (by omega)]
      split
      · congr 1
        omega
      · rfl

/-! ## The lookup -/

/-- **A lookup in range** ends: with nothing when the number is not there, and else at an option of
the run, met by halves, with the length of the run. -/
theorem lookUpAt_inRange (h : LookUpInRange options number) :
    (countEqual options number = 0 ∧ lookUpAt options number = .ok (none, 0)) ∨
      (0 < countEqual options number ∧ ∃ lo hi : Int, Halves 0 options.length lo hi ∧
        lo ≤ countBelow options number ∧
        (countBelow options number + countEqual options number : Nat) ≤ hi + 1 ∧
        countBelow options number ≤ (lo + hi) / 2 ∧
        (lo + hi) / 2 < (countBelow options number + countEqual options number : Nat) ∧
        lookUpAt options number = .ok (some ((lo + hi) / 2), countEqual options number)) := by
  obtain ⟨hbehind, hfront⟩ := (lookUpInRange_iff options number).mp h
  have hclass := probe_classifies hordered number
  have hfuel : (options.length : Int) + 1 - 0 < (options.length + 2 : Nat) := by omega
  rw [lookUpAt, searchOptions_eq_bisect]
  rcases bisect_inside hclass (by omega) (Int.le_refl 0) (by omega) (by omega) (Int.le_refl _)
    hfuel with
    ⟨hnone, hsearch⟩ | ⟨hsome, lo, hi, hhalves, hlo, hhi, hfirst, hlast, hsearch⟩
  · rw [hsearch]
    exact .inl ⟨by omega, rfl⟩
  · have hpos : 0 < countEqual options number := by omega
    have hcount : (0 : Nat) + ((countBelow options number + countEqual options number : Nat) -
        ((countBelow options number : Int) - 1 + 1)).toNat = countEqual options number := by omega
    rw [hsearch, ok_bind]
    dsimp only
    rw [scanDown_eq hordered hlo hfirst hlast (by omega), if_pos (hfront hpos), ok_bind,
      scanUp_eq hordered (by omega) (by omega) (by omega), if_pos hbehind, ok_bind, hcount]
    exact .inr ⟨hpos, lo, hi, hhalves, hlo, hhi, hfirst, hlast, rfl⟩

/-- **A lookup out of range** reads an option that does not exist. -/
theorem lookUpAt_outOfRange (h : ¬LookUpInRange options number) :
    lookUpAt options number = .error .outOfRange := by
  have hle := countBelow_add_le options number
  have hclass := probe_classifies hordered number
  have hfuel : (options.length : Int) + 1 - 0 < (options.length + 2 : Nat) := by omega
  rw [lookUpInRange_iff] at h
  rw [lookUpAt, searchOptions_eq_bisect]
  by_cases hall : countBelow options number = options.length
  · -- all numbers are smaller, and the search itself comes to the end
    have hnone : countEqual options number = 0 := by omega
    rw [hnone, Nat.add_zero, hall] at hclass
    rw [bisect_outside hclass (Int.le_refl 0) (by omega) (by omega)]
    rfl
  rcases bisect_inside hclass (by omega) (Int.le_refl 0) (by omega) (by omega) (Int.le_refl _)
    hfuel with
    ⟨hnone, hsearch⟩ | ⟨hsome, lo, hi, hhalves, hlo, hhi, hfirst, hlast, hsearch⟩
  · exact absurd ⟨by omega, fun hpos => by omega⟩ h
  · rw [hsearch, ok_bind]
    dsimp only
    rw [scanDown_eq hordered hlo hfirst hlast (by omega)]
    by_cases hfront : 0 < countBelow options number
    · rw [if_pos hfront, ok_bind, scanUp_eq hordered (by omega) (by omega) (by omega),
        if_neg fun hbehind => h ⟨hbehind, fun _ => hfront⟩]
      rfl
    · rw [if_neg hfront]
      rfl

end Ordered

/-- The option that the returned pointer addresses. -/
def dereference (options : List PacketOption) :
    Option Int × Nat → Exec (Option PacketOption × Nat)
  | (some i, quantity) => (readAtInt options i).map fun opt => (some opt, quantity)
  | (none, quantity) => .ok (none, quantity)

/-- A lookup gives the option at the position of its pointer. -/
theorem lookUp_eq_dereference (options : List PacketOption) (number : UInt16) :
    lookUp options number = lookUpAt options number >>= dereference options := by
  rw [lookUp, lookUpAt, bind_assoc]
  congr 1
  funext result
  cases result with
  | none => rfl
  | some position =>
    obtain ⟨mid, min⟩ := position
    simp only [bind_assoc]
    rfl

/-- **When a lookup returns.** -/
theorem lookUp_returns_iff {options : List PacketOption}
    (hordered : options.Pairwise (·.number ≤ ·.number)) (number : UInt16) :
    (∃ found, lookUp options number = .ok found) ↔ LookUpInRange options number := by
  rw [lookUp_eq_dereference]
  constructor
  · rintro ⟨found, hfound⟩
    by_contra hout
    rw [lookUpAt_outOfRange hordered hout] at hfound
    cases hfound
  · intro h
    rcases lookUpAt_inRange hordered h with
      ⟨-, hfound⟩ | ⟨-, lo, hi, -, -, -, hfirst, hlast, hfound⟩
    · exact ⟨_, by rw [hfound]; rfl⟩
    · obtain ⟨opt, hread, -⟩ := read_run hordered number hfirst hlast
      refine ⟨(some opt, countEqual options number), ?_⟩
      rw [hfound, ok_bind, dereference, hread]
      rfl

end LibCoap
