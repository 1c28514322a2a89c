import Mathlib.Logic.Function.Basic
import LibCoap.Machine.History

/-! # Components that share a state

Several components take turns on a state that they share, in any order. Alone, each of them would have a state
of its own. When a turn leaves a component like one that has been alone exactly under a condition on the shared
state, all of them stay like those exactly as long as every turn meets the condition (`alone_iff`). -/

namespace LibCoap.Machine

universe u

variable {ι σ τ κ α : Type u}

/-- The shared state, and the components. -/
structure Sharing (ι σ τ : Type u) where
  shared : σ
  parts : ι → τ

/-- The turns of one component. -/
def turnsOf [DecidableEq ι] (i : ι) (cs : List (ι × κ)) : List κ :=
  (cs.filter fun c => c.1 = i).map Prod.snd

namespace Sharing

variable [DecidableEq ι] {act : σ → τ → κ → Exec (σ × τ)} {alone : α → κ → Exec α} {R : α → τ → Prop}
  {C : σ → τ → κ → Prop} {Q : κ → Prop} {m m' m₁ : Sharing ι σ τ} {start : ι → α} {c : ι × κ}
  {cs : List (ι × κ)}

/-- A turn of a component. -/
def turn (act : σ → τ → κ → Exec (σ × τ)) (m : Sharing ι σ τ) (c : ι × κ) : Exec (Sharing ι σ τ) := do
  let (s, t) ← act m.shared (m.parts c.1) c.2
  pure ⟨s, Function.update m.parts c.1 t⟩

/-- What a component does alone is what it does first and what it does then. -/
theorem turnsOf_cons {a : α} (h : alone (start c.1) c.2 = .ok a) (i : ι) (cs : List (ι × κ)) :
    (turnsOf i (c :: cs)).foldlM alone (start i) =
      (turnsOf i cs).foldlM alone (Function.update start c.1 a i) := by
  by_cases hi : c.1 = i
  · subst hi
    rw [turnsOf, List.filter_cons_of_pos (by simp), List.map_cons, List.foldlM_cons, h,
      Function.update_self]
    rfl
  · rw [turnsOf, List.filter_cons_of_neg (by simpa using hi), Function.update_of_ne (Ne.symm hi)]
    rfl

/-- All components are, behind every part of a run, like those that have been alone. -/
def StayAlone (act : σ → τ → κ → Exec (σ × τ)) (alone : α → κ → Exec α) (R : α → τ → Prop)
    (m : Sharing ι σ τ) (start : ι → α) (cs : List (ι × κ)) : Prop :=
  ∀ before after m₁, cs = before ++ after → before.foldlM (turn act) m = .ok m₁ →
    ∀ i, ∃ a, (turnsOf i before).foldlM alone (start i) = .ok a ∧ R a (m₁.parts i)

/-- Every turn of a run meets a condition. -/
def Throughout (act : σ → τ → κ → Exec (σ × τ)) (C : σ → τ → κ → Prop) (m : Sharing ι σ τ)
    (cs : List (ι × κ)) : Prop :=
  ∀ before c after m₁, cs = before ++ c :: after → before.foldlM (turn act) m = .ok m₁ →
    C m₁.shared (m₁.parts c.1) c.2

/-- **One more turn** in front, for the components. -/
theorem stayAlone_cons {a : α} (hR : ∀ i, R (start i) (m.parts i)) (hturn : turn act m c = .ok m₁)
    (halone : alone (start c.1) c.2 = .ok a) : StayAlone act alone R m start (c :: cs) ↔
      StayAlone act alone R m₁ (Function.update start c.1 a) cs := by
  constructor
  · intro h before after m₂ hsplit hrun i
    obtain ⟨b, hb, hRb⟩ := h (c :: before) after m₂ (congrArg (c :: ·) hsplit)
      (foldlM_cons_eq_ok.mpr ⟨m₁, hturn, hrun⟩) i
    rw [turnsOf_cons halone] at hb
    exact ⟨b, hb, hRb⟩
  · intro h before after m₂ hsplit hrun i
    cases before with
    | nil =>
      cases hrun
      exact ⟨start i, rfl, hR i⟩
    | cons d before =>
      obtain ⟨rfl, htail⟩ := List.cons.inj hsplit
      obtain ⟨m₃, hturn', hrun⟩ := foldlM_cons_eq_ok.mp hrun
      obtain rfl := Except.ok.inj (hturn.symm.trans hturn')
      rw [turnsOf_cons halone]
      exact h before after m₂ htail hrun i

/-- **One more turn** in front, for the condition. -/
theorem throughout_cons (hturn : turn act m c = .ok m₁) : Throughout act C m (c :: cs) ↔
    C m.shared (m.parts c.1) c.2 ∧ Throughout act C m₁ cs := by
  constructor
  · intro h
    refine ⟨h [] c cs m rfl rfl, fun before d after m₂ hsplit hrun => ?_⟩
    exact h (c :: before) d after m₂ (congrArg (c :: ·) hsplit)
      (foldlM_cons_eq_ok.mpr ⟨m₁, hturn, hrun⟩)
  · rintro ⟨hfirst, hrest⟩ before d after m₂ hsplit hrun
    cases before with
    | nil =>
      cases hrun
      obtain ⟨rfl, -⟩ := List.cons.inj hsplit
      exact hfirst
    | cons d' before =>
      obtain ⟨rfl, htail⟩ := List.cons.inj hsplit
      obtain ⟨m₃, hturn', hrun⟩ := foldlM_cons_eq_ok.mp hrun
      obtain rfl := Except.ok.inj (hturn.symm.trans hturn')
      exact hrest before d after m₂ htail hrun

/-- **The rule of non-interference**, for components that keep an invariant when they are alone. -/
theorem alone_iff {I : α → Prop} (hI : ∀ a c a', Q c → I a → alone a c = .ok a' → I a')
    (hact : ∀ a s t c s' t', Q c → I a → R a t → act s t c = .ok (s', t') →
      ∃ a', alone a c = .ok a' ∧ (R a' t' ↔ C s t c))
    (hQ : ∀ c ∈ cs, Q c.2) (hstart : ∀ i, I (start i)) (hR : ∀ i, R (start i) (m.parts i))
    (hrun : cs.foldlM (turn act) m = .ok m') :
    StayAlone act alone R m start cs ↔ Throughout act C m cs := by
  induction cs generalizing m start with
  | nil =>
    refine iff_of_true (fun before after m₁ hsplit hrun i => ?_) fun before c after m₁ hsplit => ?_
    · obtain ⟨rfl, -⟩ := List.append_eq_nil_iff.mp hsplit.symm
      cases hrun
      exact ⟨start i, rfl, hR i⟩
    · simp at hsplit
  | cons c cs ih =>
    obtain ⟨m₁, hturn, hrest⟩ := foldlM_cons_eq_ok.mp hrun
    obtain ⟨⟨s, t⟩, hstep, hm₁⟩ := bind_eq_ok.mp hturn
    have hc : Q c.2 := hQ c List.mem_cons_self
    obtain ⟨a, halone, hiff⟩ := hact _ _ _ _ _ _ hc (hstart c.1) (hR c.1) hstep
    cases hm₁
    rw [stayAlone_cons hR hturn halone, throughout_cons hturn, ← hiff]
    by_cases hlike : R a t
    · rw [and_iff_right hlike]
      refine ih (fun d hd => hQ d (List.mem_cons_of_mem c hd)) (fun i => ?_) (fun i => ?_) hrest
      · by_cases hi : c.1 = i
        · subst hi
          rw [Function.update_self]
          exact hI _ _ _ hc (hstart c.1) halone
        · rw [Function.update_of_ne (Ne.symm hi)]
          exact hstart i
      · by_cases hi : c.1 = i
        · subst hi
          simpa using hlike
        · simpa [Function.update_of_ne (Ne.symm hi)] using hR i
    · -- the component that has taken the turn is not like one that has been alone
      refine iff_of_false (fun h => hlike ?_) fun h => hlike h.1
      obtain ⟨b, hb, hRb⟩ := h [] cs _ rfl rfl c.1
      cases hb
      simpa using hRb

end Sharing

end LibCoap.Machine
