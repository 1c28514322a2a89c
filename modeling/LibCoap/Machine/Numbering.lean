import Mathlib.Data.List.Basic

/-! # Numbers that are counted up

Places `0, 1, 2, …` are given numbers, each the successor of the one before, and now and then the
count is set to a number of someone's choice. A number may be used for its place more than once, and
`uses` lists every use as a pair of place and number. Counting never meets a number of a nearby place
(`Separate`) as long as no count is set to a number from which it would (`Clear`). -/

namespace LibCoap.Machine.Numbering

variable {period place number : Nat} {uses : List (Nat × Nat)}

/-- Places that are less than `period` apart have different numbers. -/
def Separate (period : Nat) (uses : List (Nat × Nat)) : Prop :=
  ∀ u ∈ uses, ∀ v ∈ uses, u.1 < v.1 → v.1 - u.1 < period → u.2 ≠ v.2

/-- A count that is at `number` in `place` comes to no number of an earlier place, unless that place
is `period` or more behind by then. -/
def Clear (period : Nat) (uses : List (Nat × Nat)) (place number : Nat) : Prop :=
  ∀ u ∈ uses, u.1 < place → ∀ k, u.2 = number + k → u.1 + period ≤ place + k

/-- The count is at `number` in `place`, which may have been given smaller numbers before. -/
structure Counting (period : Nat) (uses : List (Nat × Nat)) (place number : Nat) : Prop where
  clear : Clear period uses place number
  reached : ∀ u ∈ uses, u.1 ≤ place
  atPlace : ∀ u ∈ uses, u.1 = place → u.2 ≤ number

/-- A count that is clear meets no number of a nearby place. -/
theorem Clear.ne (h : Clear period uses place number) {u : Nat × Nat} (hu : u ∈ uses)
    (hplace : u.1 < place) (hnear : place - u.1 < period) : u.2 ≠ number := by
  intro heq
  have := h u hu hplace 0 heq
  omega

/-- The number that the count is at may be used. -/
theorem Counting.use (h : Counting period uses place number) :
    Counting period (uses ++ [(place, number)]) place number := by
  have hcases {u : Nat × Nat} (hu : u ∈ uses ++ [(place, number)]) :
      u ∈ uses ∨ u = (place, number) := by simpa using hu
  refine ⟨fun u hu hplace k hk => ?_, fun u hu => ?_, fun u hu hplace => ?_⟩
  · rcases hcases hu with hu | rfl
    · exact h.clear u hu hplace k hk
    · exact absurd hplace (Nat.lt_irrefl place)
  · rcases hcases hu with hu | rfl
    · exact h.reached u hu
    · exact Nat.le_refl place
  · rcases hcases hu with hu | rfl
    · exact h.atPlace u hu hplace
    · exact Nat.le_refl number

/-- **Using the number keeps nearby places apart.** -/
theorem Separate.use (h : Separate period uses) (hcount : Counting period uses place number) :
    Separate period (uses ++ [(place, number)]) := by
  intro u hu v hv hlt hnear
  rw [List.mem_append, List.mem_singleton] at hu hv
  rcases hv with hv | rfl
  · rcases hu with hu | rfl
    · exact h u hu v hv hlt hnear
    · exact absurd hlt (Nat.not_lt.mpr (hcount.reached v hv))
  · rcases hu with hu | rfl
    · exact hcount.clear.ne hu hlt hnear
    · exact absurd hlt (Nat.lt_irrefl place)

/-- **The next place is given the next number.** -/
theorem Counting.next (h : Counting period uses place number) :
    Counting period uses (place + 1) (number + 1) := by
  refine ⟨fun u hu hplace k hk => ?_, fun u hu => Nat.le_succ_of_le (h.reached u hu),
    fun u hu heq => ?_⟩
  · rcases Nat.lt_or_ge u.1 place with hbefore | hhere
    · have := h.clear u hu hbefore (k + 1) (by omega)
      omega
    · -- numbers of this place lie below the next one
      have := h.atPlace u hu (by omega)
      omega
  · have := h.reached u hu
    omega

end LibCoap.Machine.Numbering
