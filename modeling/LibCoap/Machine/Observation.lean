import LibCoap.Machine.Exec

/-! # What can be seen of a machine

A machine takes an input in each step, gives an output and goes on in its next state, or faults. Two of
its states are alike when no sequence of inputs tells them apart; a relation between states that every
step keeps, with the same output, shows that they are (`alike_of_bisimulation`). For the steps
themselves, two executions are compared side by side by the rules of `Matches`. -/

namespace LibCoap.Machine

universe u

variable {α β γ δ : Type u}

/-! ## Two executions side by side -/

/-- Both executions return, with related results, or both end in the same fault. -/
def Matches (R : α → β → Prop) : Exec α → Exec β → Prop
  | .ok a, .ok b => R a b
  | .error e, .error f => e = f
  | _, _ => False

/-- An execution that matches one which returns, returns as well. -/
theorem Matches.of_ok {R : α → β → Prop} {x : Exec α} {y : Exec β} {b : β} (h : Matches R x y)
    (hy : y = .ok b) : ∃ a, x = .ok a ∧ R a b := by
  subst hy
  cases x with
  | ok a => exact ⟨a, rfl, h⟩
  | error e => cases h

/-- Going on from matching executions. -/
theorem Matches.bind {R : α → β → Prop} {S : γ → δ → Prop} {x : Exec α} {y : Exec β}
    {f : α → Exec γ} {g : β → Exec δ} (h : Matches R x y)
    (hgo : ∀ a b, R a b → Matches S (f a) (g b)) : Matches S (x >>= f) (y >>= g) := by
  cases x with
  | ok a =>
    cases y with
    | ok b => exact hgo a b h
    | error e => cases h
  | error e =>
    cases y with
    | ok b => cases h
    | error f => exact h

/-- Going on from one execution in two ways. -/
theorem Matches.after {S : γ → δ → Prop} {f : α → Exec γ} {g : α → Exec δ} (x : Exec α)
    (hgo : ∀ a, Matches S (f a) (g a)) : Matches S (x >>= f) (x >>= g) := by
  cases x with
  | ok a => exact hgo a
  | error e => rfl

/-- Both take the same branch. -/
theorem Matches.ite {S : γ → δ → Prop} {c : Prop} [Decidable c] {x y : Exec γ} {x' y' : Exec δ}
    (hthen : c → Matches S x x') (helse : ¬c → Matches S y y') :
    Matches S (if c then x else y) (if c then x' else y') := by
  by_cases hc : c
  · rw [if_pos hc, if_pos hc]
    exact hthen hc
  · rw [if_neg hc, if_neg hc]
    exact helse hc

/-! ## Runs -/

section Machine

variable {σ ι ω : Type u} {step : σ → ι → Exec (ω × σ)} {s t : σ}

/-- What is seen of a run: an output for each input, up to the first fault. -/
def trace (step : σ → ι → Exec (ω × σ)) : σ → List ι → List (Exec ω)
  | _, [] => []
  | s, i :: is =>
    match step s i with
    | .ok (o, t) => .ok o :: trace step t is
    | .error e => [.error e]

/-- No sequence of inputs tells the states apart. -/
def Alike (step : σ → ι → Exec (ω × σ)) (s t : σ) : Prop := ∀ is, trace step s is = trace step t is

/-- The relation is kept by every step, with the same output. -/
def IsBisimulation (step : σ → ι → Exec (ω × σ)) (R : σ → σ → Prop) : Prop :=
  ∀ s t i, R s t → Matches (fun x y => x.1 = y.1 ∧ R x.2 y.2) (step s i) (step t i)

/-- **Related states are alike.** -/
theorem alike_of_bisimulation {R : σ → σ → Prop} (hR : IsBisimulation step R) (h : R s t) :
    Alike step s t := by
  intro is
  induction is generalizing s t with
  | nil => rfl
  | cons i is ih =>
    have hstep := hR s t i h
    rw [trace, trace]
    cases hs : step s i with
    | error e =>
      cases ht : step t i with
      | error f =>
        rw [hs, ht] at hstep
        obtain rfl : e = f := hstep
        rfl
      | ok b =>
        rw [hs, ht] at hstep
        cases hstep
    | ok a =>
      cases ht : step t i with
      | error f =>
        rw [hs, ht] at hstep
        cases hstep
      | ok b =>
        rw [hs, ht] at hstep
        obtain ⟨houtput, hnext⟩ := hstep
        show .ok a.1 :: trace step a.2 is = .ok b.1 :: trace step b.2 is
        rw [houtput, ih hnext]

/-- Alike states give the same output to one input. -/
theorem Alike.output (h : Alike step s t) {i : ι} {o o' : ω} {s' t' : σ}
    (hs : step s i = .ok (o, s')) (ht : step t i = .ok (o', t')) : o = o' := by
  have htrace := h [i]
  rw [trace, trace, hs, ht] at htrace
  exact Except.ok.inj (List.cons.inj htrace).1

end Machine

end LibCoap.Machine
