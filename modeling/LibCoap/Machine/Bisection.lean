import LibCoap.Machine.Exec

/-! # Searching by halves

A search in ordered data that compares the element in the middle of an interval, goes on in the lower
or the upper half, and ends at the first element that is neither smaller nor greater. The comparison
is an execution (`probe`), so that a position outside the data is a fault. Which of several equal
elements is met is a matter of arithmetic: the intervals that can occur (`Halves`) form a tree, and an
element is met when its interval is the outermost of all that have an equal element in the middle. -/

namespace LibCoap.Machine

universe u

/-! ## The intervals -/

/-- The intervals that halving goes through from `a`, …, `b` on. -/
inductive Halves : Int → Int → Int → Int → Prop where
  | self {a b : Int} (h : a ≤ b) : Halves a b a b
  | lower {a b lo hi : Int} (h : Halves a ((a + b) / 2 - 1) lo hi) : Halves a b lo hi
  | upper {a b lo hi : Int} (h : Halves ((a + b) / 2 + 1) b lo hi) : Halves a b lo hi

/-- Each of them lies within the first one, and none is empty. -/
theorem Halves.within {a b lo hi : Int} (h : Halves a b lo hi) : a ≤ lo ∧ lo ≤ hi ∧ hi ≤ b := by
  induction h with
  | self h => exact ⟨Int.le_refl _, h, Int.le_refl _⟩
  | lower h ih => omega
  | upper h ih => omega

/-- **Two intervals that hold the middle of each other are the same.** -/
theorem Halves.unique {a b lo hi lo' hi' : Int} (h : Halves a b lo hi) (h' : Halves a b lo' hi')
    (hmid : lo' ≤ (lo + hi) / 2 ∧ (lo + hi) / 2 ≤ hi')
    (hmid' : lo ≤ (lo' + hi') / 2 ∧ (lo' + hi') / 2 ≤ hi) : lo = lo' ∧ hi = hi' := by
  induction h with
  | self hle =>
    -- the halves do not hold the middle of the whole
    cases h' with
    | self => exact ⟨rfl, rfl⟩
    | lower h' =>
      have := h'.within
      omega
    | upper h' =>
      have := h'.within
      omega
  | lower h ih =>
    have hwithin := h.within
    cases h' with
    | self => omega
    | lower h' => exact ih h' hmid hmid'
    | upper h' =>
      have := h'.within
      omega
  | upper h ih =>
    have hwithin := h.within
    cases h' with
    | self => omega
    | lower h' =>
      have := h'.within
      omega
    | upper h' => exact ih h' hmid hmid'

/-! ## The search -/

/-- Search the interval `lo`, …, `hi`, for at most `fuel` halvings: the middle and the lower end of the
interval where an equal element is met, `none` where there is none. -/
def bisect (probe : Int → Exec Ordering) : Nat → Int → Int → Exec (Option (Int × Int))
  | 0, _, _ => .error .unfinished
  | fuel + 1, lo, hi =>
    if lo ≤ hi then do
      match ← probe ((lo + hi) / 2) with
      | .lt => bisect probe fuel ((lo + hi) / 2 + 1) hi
      | .gt => bisect probe fuel lo ((lo + hi) / 2 - 1)
      | .eq => pure (some ((lo + hi) / 2, lo))
    else pure none

/-- Of `n` elements those before `first` are smaller, those from `behind` on are greater, and those
between are equal; behind the elements a comparison faults. -/
structure Classifies (probe : Int → Exec Ordering) (first behind n : Int) : Prop where
  smaller : ∀ i, 0 ≤ i → i < first → probe i = .ok .lt
  equal : ∀ i, first ≤ i → i < behind → probe i = .ok .eq
  greater : ∀ i, behind ≤ i → i < n → probe i = .ok .gt
  outside : ∀ i, n ≤ i → probe i = .error .outOfRange
  bounds : 0 ≤ first ∧ first ≤ behind ∧ behind ≤ n

section Search

variable {probe : Int → Exec Ordering} {first behind n : Int}

/-- A smaller element in the middle: the search goes on above it. -/
theorem bisect_smaller {lo hi : Int} (hle : lo ≤ hi) (hprobe : probe ((lo + hi) / 2) = .ok .lt)
    (fuel : Nat) : bisect probe (fuel + 1) lo hi = bisect probe fuel ((lo + hi) / 2 + 1) hi := by
  rw [bisect, if_pos hle, hprobe]
  rfl

/-- A greater element in the middle: the search goes on below it. -/
theorem bisect_greater {lo hi : Int} (hle : lo ≤ hi) (hprobe : probe ((lo + hi) / 2) = .ok .gt)
    (fuel : Nat) : bisect probe (fuel + 1) lo hi = bisect probe fuel lo ((lo + hi) / 2 - 1) := by
  rw [bisect, if_pos hle, hprobe]
  rfl

/-- An equal element in the middle: the search ends. -/
theorem bisect_equal {lo hi : Int} (hle : lo ≤ hi) (hprobe : probe ((lo + hi) / 2) = .ok .eq)
    (fuel : Nat) : bisect probe (fuel + 1) lo hi = .ok (some ((lo + hi) / 2, lo)) := by
  rw [bisect, if_pos hle, hprobe]
  rfl

/-- **A search that stays inside** ends: with nothing when there is no equal element, and else in the
middle of an interval that holds all of them. The upper end may be the position behind the last
element as long as some element is not smaller. -/
theorem bisect_inside (h : Classifies probe first behind n) (hfirst : first < n) {fuel : Nat}
    {lo hi : Int} (hlo : 0 ≤ lo) (hlof : lo ≤ first) (hhib : behind ≤ hi + 1) (hhi : hi ≤ n)
    (hfuel : hi + 1 - lo < fuel) :
    (first = behind ∧ bisect probe fuel lo hi = .ok none) ∨
      (first < behind ∧ ∃ l u, Halves lo hi l u ∧ l ≤ first ∧ behind ≤ u + 1 ∧
        first ≤ (l + u) / 2 ∧ (l + u) / 2 < behind ∧
        bisect probe fuel lo hi = .ok (some ((l + u) / 2, l))) := by
  have hbounds := h.bounds
  -- the interval gets shorter, and all elements outside of it are smaller or greater
  induction fuel generalizing lo hi with
  | zero => omega
  | succ fuel ih =>
    by_cases hle : lo ≤ hi
    · by_cases hsmaller : (lo + hi) / 2 < first
      · rw [bisect_smaller hle (h.smaller _ (by omega) hsmaller)]
        rcases ih (show 0 ≤ (lo + hi) / 2 + 1 by omega) (by omega) hhib hhi (by omega) with
          ⟨hnone, hrest⟩ | ⟨hsome, l, u, hhalves, hfound⟩
        · exact .inl ⟨hnone, hrest⟩
        · exact .inr ⟨hsome, l, u, .upper hhalves, hfound⟩
      by_cases hgreater : behind ≤ (lo + hi) / 2
      · rw [bisect_greater hle (h.greater _ hgreater (by omega))]
        rcases ih hlo hlof (show behind ≤ (lo + hi) / 2 - 1 + 1 by omega) (by omega) (by omega) with
          ⟨hnone, hrest⟩ | ⟨hsome, l, u, hhalves, hfound⟩
        · exact .inl ⟨hnone, hrest⟩
        · exact .inr ⟨hsome, l, u, .lower hhalves, hfound⟩
      · have hfirst_le : first ≤ (lo + hi) / 2 := Int.not_lt.mp hsmaller
        have hlt : (lo + hi) / 2 < behind := Int.not_le.mp hgreater
        rw [bisect_equal hle (h.equal _ hfirst_le hlt)]
        exact .inr ⟨by omega, lo, hi, .self hle, hlof, hhib, hfirst_le, hlt, rfl⟩
    · refine .inl ⟨by omega, ?_⟩
      rw [bisect, if_neg hle]
      rfl

/-- **A search that leaves the data**: when all elements are smaller and the upper end is the position
behind the last one, the search comes to it. -/
theorem bisect_outside (h : Classifies probe n n n) {fuel : Nat} {lo : Int} (hlo : 0 ≤ lo)
    (hle : lo ≤ n) (hfuel : n + 1 - lo < fuel) :
    bisect probe fuel lo n = .error .outOfRange := by
  induction fuel generalizing lo with
  | zero => omega
  | succ fuel ih =>
    by_cases hinside : (lo + n) / 2 < n
    · rw [bisect_smaller hle (h.smaller _ (by omega) hinside)]
      exact ih (by omega) (by omega) (by omega)
    · rw [bisect, if_pos hle, h.outside _ (Int.not_lt.mp hinside)]
      rfl

end Search

/-! ## Ordered data -/

/-- **Where a property ends.** When it is passed on to the left, the elements that have it are the
first ones, as many as there are. -/
theorem countP_boundary {α : Type u} {p : α → Bool} {l : List α}
    (h : l.Pairwise fun a b => p b = true → p a = true) {i : Nat} {a : α} (ha : l[i]? = some a) :
    p a = true ↔ i < l.countP p := by
  induction l generalizing i with
  | nil => cases ha
  | cons c l ih =>
    obtain ⟨hc, hl⟩ := List.pairwise_cons.mp h
    by_cases hpc : p c = true
    · rw [List.countP_cons_of_pos hpc]
      cases i with
      | zero =>
        obtain rfl : c = a := Option.some.inj ha
        exact iff_of_true hpc (Nat.succ_pos _)
      | succ i =>
        rw [List.getElem?_cons_succ] at ha
        rw [ih hl ha, Nat.succ_lt_succ_iff]
    · have hnone : ∀ b ∈ l, ¬p b = true := fun b hb hpb => hpc (hc b hb hpb)
      rw [List.countP_cons_of_neg hpc, List.countP_eq_zero.mpr hnone]
      refine iff_of_false ?_ (Nat.not_lt_zero i)
      rcases List.mem_cons.mp (List.mem_of_getElem? ha) with rfl | hmem
      · exact hpc
      · exact hnone a hmem

end LibCoap.Machine
