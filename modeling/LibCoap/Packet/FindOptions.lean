import LibCoap.Packet.Lookup

/-! # The pointer and the quantity of `find_options`

Three properties of `find_options`: a lookup stays in range, a lookup in range is right, and the
options from its pointer on are those with the number (`PointerDelimits`). The second holds of every
packet, the first only when the neighbours of the run exist (`findOptions_returns_iff`), and the last
only when the halving meets the first option of the run (`pointer_stands`). -/

namespace LibCoap

open Machine

/-! ## The run -/

/-- In ordered options the options with a number are those of the run. -/
theorem filter_eq_run {options : List PacketOption}
    (hordered : options.Pairwise (·.number ≤ ·.number)) (number : UInt16) :
    options.filter (·.number = number) =
      (options.drop (countBelow options number)).take (countEqual options number) := by
  induction options with
  | nil => rfl
  | cons opt options ih =>
    obtain ⟨hopt, hrest⟩ := List.pairwise_cons.mp hordered
    have ih := ih hrest
    rw [countBelow, countEqual] at ih ⊢
    simp only [List.filter_cons, List.countP_cons, decide_eq_true_eq]
    by_cases hlt : opt.number < number
    · have hne : ¬opt.number = number := UInt16.ne_of_lt hlt
      rw [if_pos hlt, if_neg hne, if_neg hne, ih, List.drop_succ_cons, Nat.add_zero]
    · -- no option behind this one has a smaller number
      have hnone : ∀ o ∈ options, ¬(decide (o.number < number)) = true := by
        intro o ho hdec
        exact hlt (UInt16.lt_of_le_of_lt (hopt o ho) (of_decide_eq_true hdec))
      rw [List.countP_eq_zero.mpr hnone, List.drop_zero] at ih
      rw [if_neg hlt, List.countP_eq_zero.mpr hnone, List.drop_zero]
      by_cases heq : opt.number = number
      · rw [if_pos heq, if_pos heq, List.take_succ_cons, ih]
      · have hgreater : ∀ o ∈ options, ¬(decide (o.number = number)) = true := by
          intro o ho hdec
          have hle : opt.number ≤ number := of_decide_eq_true hdec ▸ hopt o ho
          exact heq (UInt16.le_antisymm hle (UInt16.not_lt.mp hlt))
        rw [if_neg heq, if_neg heq, List.countP_eq_zero.mpr hgreater, List.take_zero,
          List.filter_eq_nil_iff.mpr hgreater]

/-- **A window of the length of the run** that begins within it is the run only where the run
begins: from any other option on it holds the option behind the run. -/
theorem window_eq_run_iff {options : List PacketOption}
    (hordered : options.Pairwise (·.number ≤ ·.number)) (number : UInt16) {i : Nat}
    (hbehind : countBelow options number + countEqual options number < options.length)
    (hlo : countBelow options number ≤ i)
    (hhi : i < countBelow options number + countEqual options number) :
    (options.drop i).take (countEqual options number) = options.filter (·.number = number) ↔
      i = countBelow options number := by
  constructor
  · intro hwindow
    by_contra hne
    obtain ⟨opt, hread, hgreater⟩ := read_behind hordered number (Int.le_refl _) (by omega)
    rw [readAtInt, if_pos (by omega), Int.toNat_natCast] at hread
    -- the option behind the run is in the window
    have hget : ((options.drop i).take (countEqual options number))[countBelow options number +
        countEqual options number - i]? = some opt := by
      rw [List.getElem?_take, if_pos (by omega), List.getElem?_drop, ← readAt_eq_ok.mp hread]
      congr 1
      omega
    have hmem := List.mem_of_getElem? hget
    rw [hwindow, List.mem_filter] at hmem
    exact UInt16.ne_of_lt hgreater (of_decide_eq_true hmem.2).symm
  · rintro rfl
    exact (filter_eq_run hordered number).symm

/-! ## `find_options` -/

/-- The counts do not depend on the order of the options. -/
theorem StdSort.counts_sort (std : StdSort) (options : List PacketOption) (number : UInt16) :
    countBelow (std.sort options) number = countBelow options number ∧
      countEqual (std.sort options) number = countEqual options number :=
  ⟨(std.perm options).countP_eq _, (std.perm options).countP_eq _⟩

/-- Neither does being in range. -/
@[simp] theorem StdSort.lookUpInRange_sort (std : StdSort) (options : List PacketOption)
    (number : UInt16) :
    LookUpInRange (std.sort options) number ↔ LookUpInRange options number := by
  simp only [LookUpInRange, StdSort.mem_sort]

namespace Packet

/-- `packet::find_options`, with the position that the returned pointer addresses. -/
def findOptionsAt (std : StdSort) (p : Packet) (number : UInt16) :
    Exec ((Option Int × Nat) × Packet) := do
  let p := { p with options := std.sort p.options }
  let found ← lookUpAt p.options number
  pure (found, p)

/-- `find_options` gives the option at the position of its pointer. -/
theorem findOptions_eq_findOptionsAt (std : StdSort) (p : Packet) (number : UInt16) :
    p.findOptions std number = p.findOptionsAt std number >>= fun r =>
      (dereference r.2.options r.1).map fun found => (found, r.2) := by
  rw [findOptions, findOptionsAt, lookUp_eq_dereference]
  dsimp only
  cases lookUpAt (std.sort p.options) number <;> rfl

/-- When a lookup of a packet returns. -/
theorem findOptions_returns_iff (std : StdSort) (p : Packet) (number : UInt16) :
    (∃ found p', p.findOptions std number = .ok (found, p')) ↔ LookUpInRange p.options number := by
  rw [← std.lookUpInRange_sort, ← lookUp_returns_iff (std.ordered p.options)]
  constructor
  · rintro ⟨found, p', h⟩
    exact ⟨found, (findOptions_eq_ok.mp h).1⟩
  · rintro ⟨found, h⟩
    exact ⟨found, _, findOptions_eq_ok.mpr ⟨h, rfl⟩⟩

/-- A lookup that is not in range reads behind the options or in front of them. -/
theorem findOptions_outOfRange {std : StdSort} {p : Packet} {number : UInt16}
    (h : ¬LookUpInRange p.options number) : p.findOptions std number = .error .outOfRange := by
  rw [← std.lookUpInRange_sort] at h
  rw [findOptions_eq_findOptionsAt, findOptionsAt]
  dsimp only
  rw [lookUpAt_outOfRange (std.ordered p.options) h]
  rfl

/-- A lookup that does not leave the range is in range. -/
theorem lookUpInRange_of_ne {std : StdSort} {p : Packet} {number : UInt16}
    (h : p.findOptions std number ≠ .error .outOfRange) : LookUpInRange p.options number := by
  by_contra hout
  exact h (findOptions_outOfRange hout)

/-- **A lookup stays in range** and ends exactly when some option has a greater number and, should the
number be there, some option has a smaller one. -/
theorem lookup_stays_in_range_iff (std : StdSort) (p : Packet) (number : UInt16) :
    (∃ found p', p.findOptions std number = .ok (found, p')) ↔
      (∃ opt ∈ p.options, number < opt.number) ∧
        ((∃ opt ∈ p.options, opt.number = number) → ∃ opt ∈ p.options, opt.number < number) :=
  findOptions_returns_iff std p number

/-- No option, a number that is larger than all, one at the front, and one at the back. -/
theorem lookup_leaves_range :
    fresh.findOptions .insertion 11 = .error .outOfRange ∧
      ({ fresh with options := [⟨0, 7, []⟩] } : Packet).findOptions .insertion 11 =
        .error .outOfRange ∧
      ({ fresh with options := [⟨0, 11, []⟩, ⟨0, 23, []⟩] } : Packet).findOptions .insertion 11 =
        .error .outOfRange ∧
      ({ fresh with options := [⟨0, 7, []⟩, ⟨0, 11, []⟩] } : Packet).findOptions .insertion 11 =
        .error .outOfRange :=
  ⟨rfl, rfl, rfl, rfl⟩

/-- **A lookup in range is right.** It ends; it finds nothing, with the quantity 0, exactly when no
option has the number, and else it finds an option with the number and counts all of them. -/
theorem lookup_right {std : StdSort} {p : Packet} {number : UInt16}
    (hrange : p.findOptions std number ≠ .error .outOfRange) :
    ∃ found quantity p', p.findOptions std number = .ok ((found, quantity), p') ∧
      (found = none ∧ quantity = 0 ↔ ∀ opt ∈ p.options, opt.number ≠ number) ∧
      ((∃ opt ∈ p.options, opt.number = number) →
        ∃ opt, found = some opt ∧ opt ∈ p'.options ∧ opt.number = number ∧
          quantity = p.options.countP (·.number = number)) := by
  have hin := lookUpInRange_of_ne hrange
  have hpos := countEqual_pos_iff p.options number
  obtain ⟨⟨found, quantity⟩, p', h⟩ := (findOptions_returns_iff std p number).mpr hin
  refine ⟨found, quantity, p', h, ?_⟩
  obtain ⟨hlook, rfl⟩ := findOptions_eq_ok.mp h
  have hcount := (std.counts_sort p.options number).2
  rw [lookUp_eq_dereference] at hlook
  rcases lookUpAt_inRange (std.ordered p.options) (std.lookUpInRange_sort _ _ |>.mpr hin) with
    ⟨hzero, hat⟩ | ⟨hsome, lo, hi, -, -, -, hfirst, hlast, hat⟩
  · rw [hat, ok_bind, dereference] at hlook
    cases hlook
    rw [hcount] at hzero
    have habsent : ¬∃ opt ∈ p.options, opt.number = number := fun h => by
      have := hpos.mpr h
      omega
    refine ⟨iff_of_true ⟨rfl, rfl⟩ fun opt hopt heq => habsent ⟨opt, hopt, heq⟩, fun h => ?_⟩
    exact absurd h habsent
  · rw [hcount] at hsome
    rw [hat, ok_bind, dereference] at hlook
    obtain ⟨opt, hread, hpair⟩ := map_eq_ok hlook
    cases hpair
    have hpresent := hpos.mp hsome
    refine ⟨iff_of_false (fun h => by cases h.1) ?_, fun _ => ⟨opt, rfl, ?_, ?_, hcount⟩⟩
    · obtain ⟨o, ho, heq⟩ := hpresent
      exact fun habsent => habsent o ho heq
    · exact mem_of_readAtInt hread
    · have hlook' := (findOptions_eq_ok.mp h).1
      exact (lookUp_some hlook').2

/-- A packet with a `URI_PORT`, two `URI_PATH` and a `BLOCK_2` option. -/
def sampleOptions : Packet :=
  { fresh with options := [⟨0, 7, [22]⟩, ⟨0, 11, [97]⟩, ⟨0, 11, [98]⟩, ⟨0, 23, [2]⟩] }

/-- The path of the sample is found. -/
theorem lookup_right_sample :
    ∃ found quantity p', sampleOptions.findOptions .insertion 11 = .ok ((found, quantity), p') ∧
      (found = none ∧ quantity = 0 ↔ ∀ opt ∈ sampleOptions.options, opt.number ≠ 11) ∧
      ((∃ opt ∈ sampleOptions.options, opt.number = 11) →
        ∃ opt, found = some opt ∧ opt ∈ p'.options ∧ opt.number = 11 ∧
          quantity = sampleOptions.options.countP (·.number = 11)) := by
  refine lookup_right ?_
  have hfound : sampleOptions.findOptions .insertion 11 =
      .ok ((some ⟨0, 11, [98]⟩, 2), sampleOptions) := rfl
  rw [hfound]
  intro h
  cases h

/-- The pointer and the quantity that `find_options` returns delimit the options with the number: they
are the `*quantity` options from the pointer on. -/
def PointerDelimits (std : StdSort) (p : Packet) (number : UInt16) : Prop :=
  ∃ i quantity p', p.findOptionsAt std number = .ok ((some i, quantity), p') ∧
    (p'.options.drop i.toNat).take quantity = p'.options.filter (·.number = number)

/-- Where the pointer stands: in the middle of an interval that holds the run. It delimits the run when
this is the run's first position. -/
theorem pointer_stands {std : StdSort} {p : Packet} {number : UInt16}
    (hpresent : ∃ opt ∈ p.options, opt.number = number)
    (hrange : p.findOptions std number ≠ .error .outOfRange) :
    ∃ lo hi : Int, Halves 0 p.options.length lo hi ∧ lo ≤ countBelow p.options number ∧
      (countBelow p.options number + countEqual p.options number : Nat) ≤ hi + 1 ∧
      countBelow p.options number ≤ (lo + hi) / 2 ∧
      (lo + hi) / 2 < (countBelow p.options number + countEqual p.options number : Nat) ∧
      (p.PointerDelimits std number ↔ (lo + hi) / 2 = countBelow p.options number) := by
  have hin := lookUpInRange_of_ne hrange
  have hordered := std.ordered p.options
  have hin' : LookUpInRange (std.sort p.options) number := (std.lookUpInRange_sort _ _).mpr hin
  have hbehind := ((lookUpInRange_iff _ _).mp hin').1
  obtain ⟨hbelow, hequal⟩ := std.counts_sort p.options number
  have hpos := (countEqual_pos_iff p.options number).mpr hpresent
  have hlength := (std.perm p.options).length_eq
  rcases lookUpAt_inRange hordered hin' with
    ⟨hzero, -⟩ | ⟨-, lo, hi, hhalves, hlo, hhi, hfirst, hlast, hat⟩
  · omega
  have hfound : p.findOptionsAt std number =
      .ok ((some ((lo + hi) / 2), countEqual p.options number),
        { p with options := std.sort p.options }) := by
    rw [findOptionsAt]
    dsimp only
    rw [hat, hequal]
    rfl
  have hwindow := window_eq_run_iff hordered number (i := ((lo + hi) / 2).toNat) hbehind
    (by omega) (by omega)
  rw [hbelow] at hlo hhi hfirst hlast hwindow
  rw [hequal] at hhi hlast hwindow
  rw [hlength] at hhalves
  refine ⟨lo, hi, hhalves, hlo, hhi, hfirst, hlast, ?_⟩
  have htoNat : (lo + hi) / 2 = countBelow p.options number ↔
      ((lo + hi) / 2).toNat = countBelow p.options number := by omega
  rw [htoNat, ← hwindow]
  constructor
  · rintro ⟨i, quantity, p', h, hdelimits⟩
    rw [hfound] at h
    cases h
    exact hdelimits
  · exact fun h => ⟨_, _, _, hfound, h⟩

/-- An option whose number occurs once is delimited. -/
theorem pointerDelimits_of_single {std : StdSort} {p : Packet} {number : UInt16}
    (hsingle : p.options.countP (·.number = number) = 1)
    (hrange : p.findOptions std number ≠ .error .outOfRange) : p.PointerDelimits std number := by
  have hone : countEqual p.options number = 1 := hsingle
  have hpresent := (countEqual_pos_iff p.options number).mp (by omega)
  obtain ⟨lo, hi, -, -, -, hfirst, hlast, hdelimits⟩ := pointer_stands hpresent hrange
  exact hdelimits.mpr (by omega)

/-- **The pointer delimits the run** exactly when it meets its first option, which is the case when the
run's first position is the middle of one of the intervals that halving `0`, …, `size` goes through,
and this interval holds the run. -/
theorem pointerDelimits_iff {std : StdSort} {p : Packet} {number : UInt16}
    (hpresent : ∃ opt ∈ p.options, opt.number = number)
    (hrange : p.findOptions std number ≠ .error .outOfRange) :
    p.PointerDelimits std number ↔
      ∃ lo hi : Int, Halves 0 p.options.length lo hi ∧
        (lo + hi) / 2 = p.options.countP (·.number < number) ∧
        p.options.countP (·.number < number) + p.options.countP (·.number = number) ≤ hi + 1 := by
  obtain ⟨lo, hi, hhalves, hlo, hhi, hfirst, hlast, hdelimits⟩ := pointer_stands hpresent hrange
  show _ ↔ ∃ lo hi : Int, Halves 0 p.options.length lo hi ∧
    (lo + hi) / 2 = countBelow p.options number ∧
    countBelow p.options number + countEqual p.options number ≤ hi + 1
  rw [hdelimits]
  constructor
  · intro h
    exact ⟨lo, hi, hhalves, h, by omega⟩
  · rintro ⟨lo', hi', hhalves', hmid', hhi'⟩
    -- both intervals hold the middle of each other
    have hwithin := hhalves.within
    have hwithin' := hhalves'.within
    obtain ⟨rfl, rfl⟩ := hhalves.unique hhalves' (by omega) (by omega)
    exact hmid'

/-- Behind two options the path begins in the middle of the five options. -/
theorem pointerDelimits_iff_middle :
    ({ fresh with options := ⟨0, 3, [120]⟩ :: sampleOptions.options } :
      Packet).PointerDelimits .insertion 11 := by
  refine (pointerDelimits_iff ⟨⟨0, 11, [97]⟩, by decide, rfl⟩ ?_).mpr
    ⟨0, 5, .self (by decide), by decide, by decide⟩
  have hfound : ({ fresh with options := ⟨0, 3, [120]⟩ :: sampleOptions.options } :
      Packet).findOptions .insertion 11 =
      .ok ((some ⟨0, 11, [97]⟩, 2),
        { fresh with options := ⟨0, 3, [120]⟩ :: sampleOptions.options }) := rfl
  rw [hfound]
  intro h
  cases h

/-- In the sample the pointer stands at the second of two options, and the window ends behind them. -/
theorem not_pointerDelimits_sample :
    sampleOptions.findOptions .insertion 11 = .ok ((some ⟨0, 11, [98]⟩, 2), sampleOptions) ∧
      ¬sampleOptions.PointerDelimits .insertion 11 := by
  refine ⟨rfl, ?_⟩
  rintro ⟨i, quantity, p', h, hdelimits⟩
  have hfound : sampleOptions.findOptionsAt .insertion 11 = .ok ((some 2, 2), sampleOptions) := rfl
  rw [hfound] at h
  cases h
  revert hdelimits
  decide

end Packet

end LibCoap
