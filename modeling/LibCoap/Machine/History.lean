import Mathlib.Algebra.Ring.Nat
import LibCoap.Machine.Exec

/-! # What a run passes through

The history of a run lists its steps, each with the state that it is taken in. What the steps cost is
added up along it, and bounded by the *potential method*: when every step is paid out of the loss of a
potential and a grant, the whole run is. What the steps emit is put together along it, and when every step
of one machine is matched by the run of another machine that it emits, so is the whole run. -/

namespace LibCoap.Machine

universe u

variable {σ ι : Type u} {step : σ → ι → Exec σ} {s s' t : σ} {c : ι} {cs : List ι}

/-- The steps of a run, each with the state that it is taken in, up to the first fault. -/
def history (step : σ → ι → Exec σ) : σ → List ι → List (σ × ι)
  | _, [] => []
  | s, c :: cs => (s, c) ::
      match step s c with
      | .ok t => history step t cs
      | .error _ => []

@[simp] theorem history_nil (step : σ → ι → Exec σ) (s : σ) : history step s [] = [] := rfl

/-- The history of a run that goes on. -/
theorem history_cons (h : step s c = .ok t) :
    history step s (c :: cs) = (s, c) :: history step t cs := by
  rw [history, h]

/-- A run is a first step and a run. -/
theorem foldlM_cons_eq_ok : (c :: cs).foldlM step s = .ok s' ↔
    ∃ t, step s c = .ok t ∧ cs.foldlM step t = .ok s' := by
  rw [List.foldlM_cons]
  exact bind_eq_ok

/-- A run of two parts. -/
theorem foldlM_append_eq_ok {cs' : List ι} : (cs ++ cs').foldlM step s = .ok s' ↔
    ∃ t, cs.foldlM step s = .ok t ∧ cs'.foldlM step t = .ok s' := by
  rw [List.foldlM_append]
  exact bind_eq_ok

/-- **Where a property begins**: a run that comes to have it has a step that brings it. -/
theorem run_enters {P : σ → Prop} (hs : ¬P s) (hrun : cs.foldlM step s = .ok s') (hs' : P s') :
    ∃ before c after t t', cs = before ++ c :: after ∧ before.foldlM step s = .ok t ∧ ¬P t ∧
      step t c = .ok t' ∧ P t' ∧ after.foldlM step t' = .ok s' := by
  induction cs generalizing s with
  | nil =>
    cases hrun
    exact absurd hs' hs
  | cons c cs ih =>
    obtain ⟨t, ht, hrest⟩ := foldlM_cons_eq_ok.mp hrun
    -- the first step brings it, or a later one
    by_cases hP : P t
    · exact ⟨[], c, cs, s, t, rfl, rfl, hs, ht, hP, hrest⟩
    · obtain ⟨before, d, after, u, u', rfl, hbefore, hafter⟩ := ih hP hrest
      exact ⟨c :: before, d, after, u, u', rfl, foldlM_cons_eq_ok.mpr ⟨t, ht, hbefore⟩, hafter⟩

/-! ## What a run costs -/

/-- What a run spends when each of its steps has a cost. -/
def spent (step : σ → ι → Exec σ) (cost : σ → ι → Nat) (s : σ) (cs : List ι) : Nat :=
  ((history step s cs).map fun x => cost x.1 x.2).sum

@[simp] theorem spent_nil (step : σ → ι → Exec σ) (cost : σ → ι → Nat) (s : σ) :
    spent step cost s [] = 0 := rfl

/-- A run spends what its first step costs, and what the rest spends. -/
theorem spent_cons {cost : σ → ι → Nat} (h : step s c = .ok t) :
    spent step cost s (c :: cs) = cost s c + spent step cost t cs := by
  rw [spent, history_cons h, List.map_cons, List.sum_cons, spent]

/-- **The potential method.** When every step is paid out of the loss of a potential and a grant, so is
the whole run. -/
theorem spent_add_le {P : σ → Prop} (cost grant : σ → ι → Nat) (potential : σ → Nat)
    (hstep : ∀ s c s', P s → step s c = .ok s' →
      P s' ∧ cost s c + potential s' ≤ potential s + grant s c)
    (hs : P s) (hrun : cs.foldlM step s = .ok s') :
    spent step cost s cs + potential s' ≤ potential s + spent step grant s cs := by
  induction cs generalizing s with
  | nil =>
    cases hrun
    simp
  | cons c cs ih =>
    obtain ⟨t, ht, hrest⟩ := foldlM_cons_eq_ok.mp hrun
    obtain ⟨hP, hpaid⟩ := hstep s c t hs ht
    -- what the first step leaves of the potential is what the rest can draw on
    have hlater := ih hP hrest
    rw [spent_cons ht, spent_cons ht]
    omega

/-- The potential method where the grant is the growth of another quantity, for the inputs of the run. -/
theorem spent_add_le_gain {P : σ → Prop} (cost : σ → ι → Nat) (potential gain : σ → Nat)
    (hstep : ∀ c ∈ cs, ∀ s s', P s → step s c = .ok s' →
      P s' ∧ cost s c + potential s' + gain s ≤ potential s + gain s')
    (hs : P s) (hrun : cs.foldlM step s = .ok s') :
    spent step cost s cs + potential s' + gain s ≤ potential s + gain s' := by
  induction cs generalizing s with
  | nil =>
    cases hrun
    simp
  | cons c cs ih =>
    obtain ⟨t, ht, hrest⟩ := foldlM_cons_eq_ok.mp hrun
    obtain ⟨hfirst, hothers⟩ := List.forall_mem_cons.mp hstep
    obtain ⟨hP, hpaid⟩ := hfirst s t hs ht
    have hlater := ih hothers hP hrest
    rw [spent_cons ht]
    omega

/-! ## What a run emits -/

variable {ω τ κ : Type u}

/-- What a run emits when each of its steps emits something. -/
def emitted (step : σ → ι → Exec σ) (emit : σ → ι → List ω) (s : σ) (cs : List ι) : List ω :=
  (history step s cs).flatMap fun x => emit x.1 x.2

@[simp] theorem emitted_nil (step : σ → ι → Exec σ) (emit : σ → ι → List ω) (s : σ) :
    emitted step emit s [] = [] := rfl

/-- A run emits what its first step emits, and what the rest emits. -/
theorem emitted_cons {emit : σ → ι → List ω} (h : step s c = .ok t) :
    emitted step emit s (c :: cs) = emit s c ++ emitted step emit t cs := by
  rw [emitted, history_cons h, List.flatMap_cons, emitted]

/-- What does not depend on the state is emitted input by input. -/
theorem emitted_const {emit : ι → List ω} (hrun : cs.foldlM step s = .ok s') :
    emitted step (fun _ => emit) s cs = cs.flatMap emit := by
  induction cs generalizing s with
  | nil => rfl
  | cons c cs ih =>
    obtain ⟨t, ht, hrest⟩ := foldlM_cons_eq_ok.mp hrun
    rw [emitted_cons ht, ih hrest, List.flatMap_cons]

/-- **Queues.** When every step takes from the front of a queue and brings to its end, what a run has
taken and what is left is what was there and what the run has brought. -/
theorem emitted_queue {P : σ → Prop} {take bring : σ → ι → List ω} (queue : σ → List ω)
    (hstep : ∀ s c s', P s → step s c = .ok s' →
      P s' ∧ take s c ++ queue s' = queue s ++ bring s c)
    (hs : P s) (hrun : cs.foldlM step s = .ok s') :
    emitted step take s cs ++ queue s' = queue s ++ emitted step bring s cs := by
  induction cs generalizing s with
  | nil =>
    cases hrun
    simp
  | cons c cs ih =>
    obtain ⟨t, ht, hrest⟩ := foldlM_cons_eq_ok.mp hrun
    obtain ⟨hP, htaken⟩ := hstep s c t hs ht
    rw [emitted_cons ht, emitted_cons ht, List.append_assoc, ih hP hrest, ← List.append_assoc,
      htaken, List.append_assoc]

/-- **The simulation rule.** When every step of a machine is matched by a run of another machine on what
the step emits, every run is. -/
theorem run_simulates {step' : τ → κ → Exec τ} {emit : σ → ι → List κ} {R : σ → τ → Prop}
    (hstep : ∀ s c s' t, R s t → step s c = .ok s' →
      ∃ t', (emit s c).foldlM step' t = .ok t' ∧ R s' t')
    {t : τ} (h : R s t) (hrun : cs.foldlM step s = .ok s') :
    ∃ t', (emitted step emit s cs).foldlM step' t = .ok t' ∧ R s' t' := by
  induction cs generalizing s t with
  | nil =>
    cases hrun
    exact ⟨t, rfl, h⟩
  | cons c cs ih =>
    obtain ⟨u, hu, hrest⟩ := foldlM_cons_eq_ok.mp hrun
    -- the runs that match the single steps, one behind the other
    obtain ⟨v, hv, hR⟩ := hstep s c u t h hu
    obtain ⟨t', ht', hR'⟩ := ih hR hrest
    exact ⟨t', by rw [emitted_cons hu, foldlM_append_eq_ok]; exact ⟨v, hv, ht'⟩, hR'⟩

/-- What is granted for each element that is emitted adds up to the length of what a run emits. -/
theorem spent_length {emit : σ → ι → List ω} (k : Nat) :
    spent step (fun s c => k * (emit s c).length) s cs = k * (emitted step emit s cs).length := by
  rw [spent, emitted, List.length_flatMap]
  generalize history step s cs = passed
  induction passed with
  | nil => rfl
  | cons x passed ih =>
    rw [List.map_cons, List.sum_cons, ih, List.map_cons, List.sum_cons, Nat.mul_add]

end LibCoap.Machine
