import Mathlib.Data.List.Basic

/-! # A client and a server over a lossy network

Two parties that exchange datagrams. A datagram that has been sent may arrive any number of times, at
any time and in any order, or never: the server may answer every request that has been sent so far,
as often as it likes, and a call of the client may be delivered every answer that has been given so
far. `Exchange.Reach` collects the states of all such runs, and `Exchange.Reach.invariant` carries a
property of the client through them. In the step of that rule the delivered answer may be taken to
answer a request that has been sent, which is all that an honest server promises. -/

namespace LibCoap.Machine

/-- A client, and what a server may answer it. -/
structure Exchange (Client Call Request Answer : Type) where
  /-- What a call makes of the client. -/
  step : Client → Call → Client → Prop
  /-- The requests that a client has sent so far. -/
  sent : Client → List Request
  /-- The answer that is delivered with a call. -/
  delivered : Call → Option Answer
  /-- What an honest server may answer to a request. -/
  serves : Request → Answer → Prop

namespace Exchange

variable {Client Call Request Answer : Type} (X : Exchange Client Call Request Answer)

/-- The answer `a` answers a request that the client has sent. -/
def Answered (e : Client) (a : Answer) : Prop := ∃ q ∈ X.sent e, X.serves q a

/-- The clients that can be reached from `e₀`, and the answers that can arrive there, by calls that
meet the condition `P`. -/
inductive Reach (P : Client → Call → Prop) (e₀ : Client) : Client → List Answer → Prop where
  | init : Reach P e₀ e₀ []
  | call {e e' : Client} {c : Call} {answers : List Answer} (before : Reach P e₀ e answers)
      (meets : P e c) (arrives : ∀ a ∈ X.delivered c, a ∈ answers) (step : X.step e c e') :
      Reach P e₀ e' answers
  | answer {e : Client} {a : Answer} {answers : List Answer} (before : Reach P e₀ e answers)
      (answered : X.Answered e a) : Reach P e₀ e (a :: answers)

variable {X}

/-- An answered request stays answered as long as no request is forgotten. -/
theorem Answered.mono {e e' : Client} {a : Answer} (h : X.Answered e a)
    (hsent : X.sent e ⊆ X.sent e') : X.Answered e' a := by
  obtain ⟨q, hq, hserves⟩ := h
  exact ⟨q, hsent hq, hserves⟩

/-- **The invariant rule**: a property of the client holds in every reachable state once every call
keeps it, where the delivered answer answers a request that has been sent. -/
theorem Reach.invariant {P : Client → Call → Prop} {e₀ : Client} (I : Client → Prop) (hinit : I e₀)
    (hstep : ∀ e c e', I e → P e c → (∀ a ∈ X.delivered c, X.Answered e a) → X.step e c e' →
      I e' ∧ X.sent e ⊆ X.sent e')
    {e : Client} {answers : List Answer} (h : X.Reach P e₀ e answers) : I e := by
  suffices hboth : I e ∧ ∀ a ∈ answers, X.Answered e a from hboth.1
  induction h with
  | init => exact ⟨hinit, nofun⟩
  | call before meets arrives step ih =>
    obtain ⟨hinv, hanswered⟩ := ih
    obtain ⟨hinv', hsent⟩ :=
      hstep _ _ _ hinv meets (fun a ha => hanswered a (arrives a ha)) step
    exact ⟨hinv', fun a ha => (hanswered a ha).mono hsent⟩
  | answer before answered ih =>
    refine ⟨ih.1, fun a ha => ?_⟩
    rcases List.mem_cons.mp ha with rfl | ha
    · exact answered
    · exact ih.2 a ha

/-- The same exchange, with a count of what the calls of the client cost. -/
def counted (X : Exchange Client Call Request Answer) (cost : Client → Call → Nat) :
    Exchange (Client × Nat) Call Request Answer where
  step e c e' := X.step e.1 c e'.1 ∧ e'.2 = e.2 + cost e.1 c
  sent e := X.sent e.1
  delivered := X.delivered
  serves := X.serves

/-- A state of the exchange is reached with some count. -/
theorem Reach.exists_count {P : Client → Call → Prop} {e₀ e : Client} {answers : List Answer}
    (cost : Client → Call → Nat) (h : X.Reach P e₀ e answers) :
    ∃ n, (X.counted cost).Reach (fun e => P e.1) (e₀, 0) (e, n) answers := by
  induction h with
  | init => exact ⟨0, .init⟩
  | @call e e' c answers before meets arrives step ih =>
    obtain ⟨n, hn⟩ := ih
    exact ⟨n + cost e c, hn.call meets arrives ⟨step, rfl⟩⟩
  | answer before answered ih =>
    obtain ⟨n, hn⟩ := ih
    exact ⟨n, hn.answer answered⟩

end Exchange

end LibCoap.Machine
