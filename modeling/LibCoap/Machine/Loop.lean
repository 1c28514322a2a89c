import Mathlib.Data.List.Basic
import LibCoap.Machine.Exec

/-! # Loops that make progress

A loop is given by its turn: from one passage of its head to the next one, or out of the loop. A loop
whose position grows in every turn and stays within a bound ends, and passes its head at most once for
each position. -/

namespace LibCoap.Machine

universe u

variable {σ β : Type u}

/-- How a turn of a loop ends. -/
inductive Turn (σ β : Type u) where
  /-- The head is passed again. -/
  | next (s : σ)
  | leave (b : β)

/-- A loop, for at most `fuel` turns. -/
def loop (turn : σ → Exec (Turn σ β)) : Nat → σ → Exec β
  | 0, _ => .error .unfinished
  | fuel + 1, s => do
    match ← turn s with
    | .next t => loop turn fuel t
    | .leave b => pure b

/-- `Heads turn hs b`: the loop passes its head in the states `hs` and is left with `b`. -/
inductive Heads (turn : σ → Exec (Turn σ β)) : List σ → β → Prop where
  | leave {s : σ} {b : β} (ends : turn s = .ok (.leave b)) : Heads turn [s] b
  | next {s t : σ} {hs : List σ} {b : β} (goes : turn s = .ok (.next t))
      (rest : Heads turn (t :: hs) b) : Heads turn (s :: t :: hs) b

/-- With a turn for each passage of the head the loop returns. -/
theorem Heads.loop {turn : σ → Exec (Turn σ β)} {s : σ} {hs : List σ} {b : β}
    (h : Heads turn (s :: hs) b) {fuel : Nat} (hfuel : hs.length < fuel) :
    Machine.loop turn fuel s = .ok b := by
  induction fuel generalizing s hs with
  | zero => cases hfuel
  | succ fuel ih =>
    cases h with
    | leave ends =>
      rw [Machine.loop, ends]
      rfl
    | next goes rest =>
      rw [List.length_cons] at hfuel
      rw [Machine.loop, goes]
      exact ih rest (by omega)

/-- **Progress**: a position that grows from one passage of the head to the next and does not pass the
bound leads out of the loop. -/
theorem exists_heads {turn : σ → Exec (Turn σ β)} {P : σ → Prop} (pos : σ → Nat) {bound : Nat}
    (hbound : ∀ s, P s → pos s ≤ bound)
    (hturn : ∀ s, P s → (∃ b, turn s = .ok (.leave b)) ∨
      ∃ t, turn s = .ok (.next t) ∧ P t ∧ pos s < pos t) {s : σ} (hs : P s) :
    ∃ hs b, Heads turn (s :: hs) b ∧ (s :: hs).Pairwise (pos · < pos ·) ∧ ∀ t ∈ s :: hs, P t := by
  induction hn : bound - pos s using Nat.strongRecOn generalizing s with
  | ind n ih =>
    rcases hturn s hs with ⟨b, hb⟩ | ⟨t, ht, hP, hlt⟩
    · exact ⟨[], b, .leave hb, List.pairwise_singleton _ _, by simpa using hs⟩
    · have hle := hbound t hP
      obtain ⟨hs', b, hheads, hgrows, hall⟩ := ih (bound - pos t) (by omega) hP rfl
      refine ⟨t :: hs', b, .next ht hheads, ?_, List.forall_mem_cons.mpr ⟨hs, hall⟩⟩
      refine List.pairwise_cons.mpr ⟨fun u hu => ?_, hgrows⟩
      -- the next head is the first of the others, and they are behind it
      rcases List.mem_cons.mp hu with rfl | hu
      · exact hlt
      · exact Nat.lt_trans hlt ((List.pairwise_cons.mp hgrows).1 u hu)

/-- Positions that grow are not more than there is room for. -/
theorem length_le_of_grows {pos : σ → Nat} {first bound : Nat} {hs : List σ}
    (hgrows : hs.Pairwise (pos · < pos ·)) (hall : ∀ s ∈ hs, first ≤ pos s ∧ pos s < bound) :
    hs.length ≤ bound - first := by
  induction hs generalizing first with
  | nil => exact Nat.zero_le _
  | cons s hs ih =>
    obtain ⟨hs₁, hs₂⟩ := List.forall_mem_cons.mp hall
    obtain ⟨hbehind, hrest⟩ := List.pairwise_cons.mp hgrows
    have hcount : hs.length ≤ bound - (pos s + 1) :=
      ih hrest fun t ht => ⟨hbehind t ht, (hs₂ t ht).2⟩
    rw [List.length_cons]
    omega

end LibCoap.Machine
