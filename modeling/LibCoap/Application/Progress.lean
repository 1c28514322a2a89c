import LibCoap.Application.Refinement

/-! # The program comes to its end

Every step of the endpoint brings the program nearer to its end, and only an accepted block sets it back:
a step is paid out of the steps that are left (`Endpoint.stepsLeft`), of which an accepted block grants
ten. What `select` waits for is paid out of the timeout, to which every request adds two seconds. The one
thing that keeps the program from its end is the standard input: it is watched and never read, so from the
first character on no step is taken any more. -/

namespace LibCoap

open Machine

namespace Endpoint

variable {std : StdSort} {e e' : Endpoint} {env : Env}

/-! ## The steps that are left -/

/-- How many steps a client can take before it rests, unless a block is accepted. -/
def stepsLeft (e : Endpoint) : Nat :=
  match e.nextState with
  | .sendRequest => 2 * (receiveMaxAttempts + 1 - e.attempts) + 1
  | .receiveDataBlock => 2 * (receiveMaxAttempts + 1 - e.attempts)
  | .error | .complete => 1
  | .idle => 0

/-- **A step is one of those that are left**, and an accepted block grants ten more. -/
theorem Effect.stepsLeft (hinv : e.Inv) (h : Effect std e (.transactionStep env) e')
    (hawake : e.nextState ≠ .idle) :
    1 + e'.stepsLeft ≤ e.stepsLeft + 10 * (e.accepted std env).toList.length := by
  have hattempts : e.attempts ≤ 4 := hinv.attempts
  cases h with
  | rest turn turn' _ next =>
    have hnow : e.stepsLeft = 1 := by
      unfold Endpoint.stepsLeft
      cases hnext : e.nextState with
      | idle => exact absurd hnext hawake
      | sendRequest => exact absurd hnext turn
      | receiveDataBlock => exact absurd hnext turn'
      | error | complete => rfl
    have hlater : e'.stepsLeft = 0 := by simp only [Endpoint.stepsLeft, next]
    omega
  | requested turn requested =>
    have hsame : e'.attempts = e.attempts := congrArg Core.attempts requested.core
    rcases requested.next with hnext | hnext
    · simp only [Endpoint.stepsLeft, turn, hnext, hsame]
      omega
    · simp only [Endpoint.stepsLeft, turn, hnext, receiveMaxAttempts]
      omega
  | unsent turn unsent =>
    simp only [Endpoint.stepsLeft, turn, unsent.next, receiveMaxAttempts]
    omega
  | @took _ _ a turn accepted took =>
    have hnow : e.stepsLeft = 2 * (receiveMaxAttempts + 1 - e.attempts) := by
      simp only [Endpoint.stepsLeft, turn]
    have hlater : e'.stepsLeft ≤ 11 := by
      unfold Endpoint.stepsLeft
      rw [took.nextState, took.attempts]
      cases a.more with
      | true => exact Nat.le_refl 11
      | false => exact Nat.le_add_left 1 10
    rw [accepted, Option.toList_some, List.length_singleton, hnow, receiveMaxAttempts]
    omega
  | declined turn _ declined =>
    rcases declined.next with ⟨hnext, hone, hle⟩ | ⟨hnext, -⟩
    · simp only [Endpoint.stepsLeft, turn, hnext, hone]
      rw [receiveMaxAttempts] at hle ⊢
      omega
    · simp only [Endpoint.stepsLeft, turn, hnext, receiveMaxAttempts]
      omega

/-! ## The timeout that is set -/

/-- What a step does with the timeout: it is kept, set to nothing, or set to two seconds with a request. -/
def Rearms (e e' : Endpoint) : Prop :=
  e'.tvSec = e.tvSec ∨ e'.tvSec = 0 ∨
    (e'.tvSec = receveMaxTimeoutSeconds ∧ e'.conn.sent.length = e.conn.sent.length + 1)

/-- Transmitting sets the timeout with a request. -/
theorem transmit_rearms (h : e.transmit env = .ok e') : e.Rearms e' := by
  rw [transmit] at h
  obtain ⟨measured, -, h⟩ := bind_eq_ok.mp h
  split at h
  · cases h
    exact .inl rfl
  obtain ⟨written, -, h⟩ := bind_eq_ok.mp h
  split at h
  · cases h
    exact .inl rfl
  obtain ⟨e₁, hsend, h⟩ := bind_eq_ok.mp h
  unfold send at hsend
  obtain ⟨datagram, -, hsend⟩ := bind_eq_ok.mp hsend
  cases hsend
  split at h
  · cases h
    exact .inl rfl
  · cases h
    exact .inr (.inr ⟨rfl, List.length_append⟩)

/-- A send step sets the timeout with a request. -/
theorem sendRequestHandler_rearms (h : e.sendRequestHandler std env = .ok e') : e.Rearms e' := by
  rw [sendRequestHandler] at h
  obtain ⟨⟨ok, block2, pdu⟩, -, h⟩ := bind_eq_ok.mp h
  cases ok with
  | false =>
    cases h
    exact .inl rfl
  | true =>
    obtain ⟨request, -, h⟩ := bind_eq_ok.mp h
    have hrearms := transmit_rearms h
    exact hrearms

/-- A retry keeps the timeout. -/
theorem retry_tvSec (e : Endpoint) : e.retry.tvSec = e.tvSec := by
  unfold retry
  split <;> rfl

/-- Storing keeps the timeout or sets it to nothing. -/
theorem store_tvSec (h : e.store std = .ok e') : e'.tvSec = e.tvSec ∨ e'.tvSec = 0 := by
  rw [store] at h
  obtain ⟨⟨ok, block2, pdu⟩, -, h⟩ := bind_eq_ok.mp h
  cases ok with
  | false =>
    cases h
    exact .inl rfl
  | true =>
    simp only [Bool.not_true, Bool.false_eq_true, if_false] at h
    split at h
    · cases h
      exact .inr rfl
    · cases h
      exact .inl rfl

/-- A receive step keeps the timeout or sets it to nothing. -/
theorem receiveDataBlockHandler_tvSec (h : e.receiveDataBlockHandler std env = .ok e') :
    e'.tvSec = e.tvSec ∨ e'.tvSec = 0 := by
  rw [receiveDataBlockHandler] at h
  split at h
  · split at h
    · cases h
      exact .inl rfl
    obtain ⟨⟨verdict, pdu⟩, -, h⟩ := bind_eq_ok.mp h
    cases verdict with
    | false =>
      cases h
      exact .inr rfl
    | true =>
      rcases examine_ends h with rfl | ⟨code, rfl⟩ | hstore
      · exact .inr (retry_tvSec _)
      · exact .inr rfl
      · rcases store_tvSec hstore with hkept | hzero
        · exact .inr hkept
        · exact .inr hzero
  · cases h
    exact .inl (retry_tvSec _)

/-- **What a step does with the timeout.** -/
theorem transactionStep_rearms (h : e.transactionStep std env = .ok e') : e.Rearms e' := by
  rw [transactionStep] at h
  cases hnext : e.nextState with
  | idle | error | complete =>
    simp only [hnext] at h
    cases h
    exact .inl rfl
  | sendRequest =>
    simp only [hnext] at h
    exact sendRequestHandler_rearms h
  | receiveDataBlock =>
    simp only [hnext] at h
    rcases receiveDataBlockHandler_tvSec h with hkept | hzero
    · exact .inl hkept
    · exact .inr (.inl hzero)

/-- No step takes a request back. -/
theorem Effect.sent_le {call : Call} (h : Effect std e call e') :
    e.conn.sent.length ≤ e'.conn.sent.length := by
  have hsame (hsent : e'.conn.sent = e.conn.sent) : e.conn.sent.length ≤ e'.conn.sent.length := by
    rw [hsent]
  cases h with
  | start core => exact hsame (congrArg Core.sent core)
  | stop core => exact hsame (congrArg Core.sent core)
  | setReceived core => exact hsame (congrArg Core.sent core)
  | rest _ _ core => exact hsame (congrArg Core.sent core)
  | requested _ requested =>
    have hsent : e'.conn.sent = e.conn.sent ++ [_] := congrArg Core.sent requested.core
    rw [hsent, List.length_append]
    exact Nat.le_add_right _ _
  | unsent _ unsent => exact hsame (congrArg Core.sent unsent.core)
  | took _ _ took => exact hsame took.sent
  | declined _ _ declined => exact hsame (congrArg Core.sent declined.core)

/-- **A step spends its request from the budget**, and an accepted block grants five more. -/
theorem Effect.budget_accepted (hinv : e.Inv) (h : Effect std e (.transactionStep env) e') :
    e'.conn.sent.length + e'.budget ≤
      e.conn.sent.length + e.budget + 5 * (e.accepted std env).toList.length := by
  cases ha : e.accepted std env with
  | none =>
    have hspent := h.budget hinv nofun ha
    simpa using hspent
  | some a =>
    cases h with
    | rest _ turn' => exact absurd (accepted_turn ha) turn'
    | requested turn => exact absurd (accepted_turn ha) (by simp [turn])
    | unsent turn => exact absurd (accepted_turn ha) (by simp [turn])
    | took _ _ took =>
      have hbudget : e'.budget ≤ 5 := by
        unfold Endpoint.budget
        split
        · rw [receiveMaxAttempts]
          omega
        · rw [receiveMaxAttempts]
          omega
        · omega
      rw [took.sent, Option.toList_some, List.length_singleton]
      omega
    | declined _ accepted => exact absurd (accepted.symm.trans ha) (by simp)

end Endpoint

/-- A turn in which `select` does not fail. -/
def Event.selects : Event → Bool
  | .turn s => s.failed.isNone
  | _ => false

namespace Program

variable {std : StdSort} {p p' : Program} {s : Surroundings} {event : Event}

/-- **The invariant of a program that has been launched**: it runs with a client, `quit` says whether the
endpoint shows that it is done, and a client at rest is done. -/
structure Sane (p : Program) : Prop where
  inv : p.ep.Inv
  follows : ∃ e, p.Follows e
  quits : p.quit = (p.ep.isComplete || p.ep.isError)
  rests : p.ep.nextState = .idle → p.quit = true

/-! ## What an event does -/

/-- The answer that an event accepts. -/
def accepted (std : StdSort) (p : Program) : Event → Option Answer
  | .turn s => if p.acts s then (p.woken s).ep.accepted std (p.env s) else none
  | _ => none

/-- The event lets the endpoint take a step. -/
def stepping (p : Program) : Event → Bool
  | .turn s => p.acts s
  | _ => false

/-- **What an event makes of the endpoint**: nothing but another timeout, or what a step of a client
does. -/
inductive Moved (std : StdSort) (p : Program) : Event → Program → Prop where
  | rested {event : Event} {p' : Program} (rests : p.stepping event = false) (tvSec : Int)
      (ep : p'.ep = { p.ep with tvSec := tvSec }) (quit : p'.quit = p.quit) : Moved std p event p'
  | acted {s : Surroundings} {p' : Program} {ep : Endpoint} (acts : p.acts s = true)
      (step : (p.woken s).ep.transactionStep std (p.env s) = .ok ep)
      (effect : (p.woken s).ep.Effect std (.transactionStep (p.env s)) ep)
      (buffer : List UInt8) (same : p'.ep = { ep with conn := { ep.conn with buffer := buffer } })
      (usec : p'.usec = (p.woken s).usec)
      (quit : p'.quit = (p'.ep.isComplete || p'.ep.isError)) : Moved std p (.turn s) p'

/-- Whether something waits does not matter for the invariant of a client. -/
theorem woken_inv (s : Surroundings) (h : p.ep.Inv) : (p.woken s).ep.Inv := by
  obtain ⟨sec, usec, hwoken⟩ := p.woken_eq s
  rw [hwoken]
  exact ⟨fun hturn => ⟨(h.waiting hturn).payload, (h.waiting hturn).mid⟩, h.attempts⟩

/-- A receive leaves everything but the memory behind the buffer. -/
theorem leave_eq (a : Arrival) (conn : Connection) :
    ∃ buffer, a.leave conn = { conn with buffer := buffer } := by
  cases a with
  | datagram bytes => exact ⟨conn.buffer, rfl⟩
  | failure => exact ⟨_, rfl⟩

/-- `quit` behind a step. -/
theorem check_quit (hfree : p.blocked = false) :
    p.check.quit = (p.check.ep.isComplete || p.check.ep.isError) := by
  rw [check_ep, check, hfree]
  rfl

/-- **Every event does one of these.** -/
theorem Sane.moved (h : p.Sane) (hstep : p.step std event = .ok p') : Moved std p event p' := by
  obtain ⟨e, he⟩ := h.follows
  cases event with
  | arrive a =>
    cases hstep
    exact .rested rfl p.ep.tvSec rfl rfl
  | enter =>
    cases hstep
    exact .rested rfl p.ep.tvSec rfl rfl
  | turn s =>
    have hfree : (p.woken s).blocked = false := (p.woken_blocked s).trans he.free
    cases turned_of_turn he.waits hstep with
    | finished ended =>
      have hrests : p.acts s = false := by rw [acts, ended]; rfl
      exact .rested hrests p.ep.tvSec rfl rfl
    | skipped goes skips =>
      obtain ⟨sec, usec, hselect⟩ := p.select_eq s
      refine .rested (acts_eq_false_of_skips skips) sec ?_ ?_ <;> rw [hselect]
    | @received a socket ep acts waits receives step =>
      obtain ⟨buffer, hleave⟩ := leave_eq a ep.conn
      refine .acted acts step (Endpoint.step_effect (woken_inv s h.inv) step) buffer ?_ ?_ ?_
      · rw [check_ep, hleave]
      · unfold check
        split <;> rfl
      · exact check_quit hfree
    | @stepped ep acts receives step =>
      refine .acted acts step (Endpoint.step_effect (woken_inv s h.inv) step) ep.conn.buffer ?_ ?_ ?_
      · rw [check_ep]
      · unfold check
        split <;> rfl
      · exact check_quit hfree

/-- No turn reads from the standard input. -/
theorem turn_stdin (hstep : p.step std (.turn s) = .ok p') : p'.stdin = p.stdin := by
  have hselect : (p.select s).stdin = p.stdin := by
    obtain ⟨sec, usec, hselect⟩ := p.select_eq s
    rw [hselect]
  change p.turn std s = .ok p' at hstep
  rw [turn] at hstep
  split at hstep
  · cases hstep
    rfl
  dsimp only at hstep
  split at hstep
  · cases hstep
    exact hselect
  obtain ⟨q, hq, hstep⟩ := bind_eq_ok.mp hstep
  cases hstep
  have hcheck : q.check.stdin = q.stdin := by
    unfold check
    split <;> rfl
  rw [hcheck, ← hselect]
  unfold transact at hq
  split at hq
  · split at hq
    · cases hq
      rfl
    · obtain ⟨ep, -, hq⟩ := bind_eq_ok.mp hq
      cases hq
      rfl
  · obtain ⟨ep, -, hq⟩ := bind_eq_ok.mp hq
    cases hq
    rfl

/-- A step is taken only where the endpoint is awake. -/
theorem Sane.awake (h : p.Sane) (hacts : p.acts s = true) : p.ep.nextState ≠ .idle := by
  intro hidle
  have hquit := h.rests hidle
  rw [acts, ended, hquit] at hacts
  cases hacts

/-- **Every event keeps the invariant.** -/
theorem Sane.step (h : p.Sane) (hstep : p.step std event = .ok p') : p'.Sane := by
  have hfollows : ∃ e, p'.Follows e := by
    obtain ⟨e, he⟩ := h.follows
    obtain ⟨e', -, he'⟩ := he.step hstep
    exact ⟨e', he'⟩
  cases h.moved hstep with
  | rested rests tvSec ep quit =>
    refine ⟨?_, hfollows, ?_, ?_⟩
    · rw [ep]
      exact ⟨fun hturn => ⟨(h.inv.waiting hturn).payload, (h.inv.waiting hturn).mid⟩, h.inv.attempts⟩
    · rw [ep, quit]
      exact h.quits
    · rw [ep, quit]
      exact h.rests
  | @acted s _ ep acts step effect buffer same usec quit =>
    have hinv := effect.inv (woken_inv s h.inv)
    refine ⟨?_, hfollows, quit, ?_⟩
    · rw [same]
      exact ⟨fun hturn => ⟨(hinv.waiting hturn).payload, (hinv.waiting hturn).mid⟩, hinv.attempts⟩
    · -- the endpoint rests behind a step in `ERROR` or `COMPLETE`, which it shows
      intro hidle
      have hstate := Endpoint.transactionStep_state step
      have hawake := h.awake acts
      rw [woken_nextState] at hstate
      rw [same] at hidle
      rw [quit, same, Endpoint.isComplete, Endpoint.isError, hstate]
      cases effect with
      | rest turn turn' _ _ =>
        rw [woken_nextState] at turn turn'
        cases hnext : p.ep.nextState with
        | idle => exact absurd hnext hawake
        | sendRequest => exact absurd hnext turn
        | receiveDataBlock => exact absurd hnext turn'
        | error | complete => rfl
      | requested _ requested =>
        rcases requested.next with hnext | hnext <;> rw [hnext] at hidle <;> cases hidle
      | unsent _ unsent =>
        rw [unsent.next] at hidle
        cases hidle
      | took _ _ took =>
        rw [took.nextState] at hidle
        split at hidle <;> cases hidle
      | declined _ _ declined =>
        rcases declined.next with ⟨hnext, -⟩ | ⟨hnext, -⟩ <;> rw [hnext] at hidle <;> cases hidle

/-- A launched program meets the invariant. -/
theorem launch_sane {path buffer : List UInt8} {port : UInt16}
    (h : launch path port buffer = .ok p) : p.Sane := by
  obtain ⟨e₀, hcreate, rfl, hfollows⟩ := launch_follows h
  obtain ⟨hinv, -, hstate, -⟩ := Endpoint.create_inv hcreate
  refine ⟨⟨nofun, hinv.attempts⟩, ⟨_, hfollows⟩, ?_, nofun⟩
  show false = (decide (e₀.state = .complete) || decide (e₀.state = .error))
  rw [hstate]
  rfl

/-- The invariant holds at the end of every run. -/
theorem Sane.run {events : List Event} (h : p.Sane) (hrun : p.run std events = .ok p') : p'.Sane :=
  run_invariant (fun _ _ _ hs hstep => hs.step hstep) h hrun

/-! ## How many steps are taken -/

/-- The answers that a run accepts, in order. -/
def answers (std : StdSort) (p : Program) (events : List Event) : List Answer :=
  emitted (Program.step std) (fun p event => (p.accepted std event).toList) p events

/-- An event pays for the step that it lets the endpoint take. -/
theorem Sane.stepsLeft (h : p.Sane) (hstep : p.step std event = .ok p') :
    (p.stepping event).toNat + p'.ep.stepsLeft ≤
      p.ep.stepsLeft + 10 * (p.accepted std event).toList.length := by
  cases h.moved hstep with
  | rested rests tvSec ep =>
    rw [rests, ep]
    show 0 + p.ep.stepsLeft ≤ _
    omega
  | @acted s _ ep acts _ effect buffer same =>
    have hawake : (p.woken s).ep.nextState ≠ .idle := by
      rw [woken_nextState]
      exact h.awake acts
    have hpaid := effect.stepsLeft (woken_inv s h.inv) hawake
    have hwoken : (p.woken s).ep.stepsLeft = p.ep.stepsLeft := by
      obtain ⟨sec, usec, hwoken⟩ := p.woken_eq s
      rw [hwoken]
      rfl
    have hlater : p'.ep.stepsLeft = ep.stepsLeft := by
      rw [same]
      rfl
    rw [hlater, ← hwoken, accepted, if_pos acts]
    show (p.acts s).toNat + _ ≤ _
    rw [acts]
    exact hpaid

/-- **The steps of a program are bounded by the blocks that it accepts.** -/
theorem steps_bounded {p₀ : Program} {path buffer : List UInt8} {port : UInt16}
    {events : List Event} (hlaunch : launch path port buffer = .ok p₀)
    (hrun : p₀.run std events = .ok p) :
    spent (Program.step std) (fun p event => (p.stepping event).toNat) p₀ events ≤
      11 + 10 * (p₀.answers std events).length := by
  have hpaid := spent_add_le (P := Sane) (fun p event => (p.stepping event).toNat)
    (fun p event => 10 * (p.accepted std event).toList.length) (fun p => p.ep.stepsLeft)
    (fun _ _ _ hs hstep => ⟨hs.step hstep, hs.stepsLeft hstep⟩)
    (launch_sane hlaunch) hrun
  rw [spent_length] at hpaid
  have hfirst : p₀.ep.stepsLeft = 11 := by
    obtain ⟨e₀, hcreate, rfl, -⟩ := launch_follows hlaunch
    obtain ⟨-, -, -, hcore⟩ := Endpoint.create_inv hcreate
    have hnone : e₀.attempts = 0 := congrArg Endpoint.Core.attempts hcore
    show 2 * (receiveMaxAttempts + 1 - e₀.attempts) + 1 = 11
    rw [hnone, receiveMaxAttempts]
  rw [hfirst] at hpaid
  exact (Nat.le_add_right _ _).trans hpaid

/-- Once the loop has been left it is not entered again. -/
theorem Sane.quit_stays (h : p.Sane) (hquit : p.quit = true) (hstep : p.step std event = .ok p') :
    p'.quit = true := by
  cases h.moved hstep with
  | rested _ _ _ quit => exact quit.trans hquit
  | acted hacts =>
    rw [acts, ended, hquit] at hacts
    cases hacts

/-- While the program goes on and nothing is entered, every turn in which `select` does not fail lets the
endpoint take a step. -/
theorem Sane.spent_stepping {events : List Event} (h : p.Sane) (hrun : p.run std events = .ok p')
    (hgoes : p'.quit = false) (hstdin : p.stdin = false) (hnone : Event.enter ∉ events) :
    spent (Program.step std) (fun p event => (p.stepping event).toNat) p events =
      events.countP Event.selects := by
  induction events generalizing p with
  | nil => rfl
  | cons event events ih =>
    obtain ⟨q, hstep, hrest⟩ := foldlM_cons_eq_ok.mp hrun
    have hq := h.step hstep
    obtain ⟨e, he⟩ := h.follows
    have hquit : p.quit = false := by
      by_contra hquit
      have hlater : p'.quit = true :=
        run_invariant (P := fun p => p.Sane ∧ p.quit = true)
          (fun _ _ _ hs hstep => ⟨hs.1.step hstep, hs.1.quit_stays hs.2 hstep⟩)
          ⟨h, (Bool.not_eq_false p.quit).mp hquit⟩ hrun |>.2
      rw [hgoes] at hlater
      cases hlater
    rw [List.mem_cons, not_or] at hnone
    have hnext : q.stdin = false := by
      cases event with
      | arrive a =>
        cases hstep
        exact hstdin
      | enter => exact absurd rfl hnone.1
      | turn s => rw [turn_stdin hstep, hstdin]
    rw [spent_cons hstep, ih hq hrest hnext hnone.2, List.countP_cons, Nat.add_comm]
    congr 1
    cases event with
    | arrive a => rfl
    | enter => rfl
    | turn s =>
      show (p.acts s).toNat = if s.failed.isNone = true then 1 else 0
      rw [acts, ended, hquit, he.free, hstdin]
      cases s.failed.isNone <;> rfl

/-- **The program comes to its end.** As long as nothing is entered on the standard input, the program
has ended once `select` has returned more than eleven times, and ten times more for each block that has
been accepted. -/
theorem run_quits {p₀ : Program} {path buffer : List UInt8} {port : UInt16} {events : List Event}
    (hlaunch : launch path port buffer = .ok p₀) (hrun : p₀.run std events = .ok p)
    (hnone : Event.enter ∉ events)
    (hlong : 11 + 10 * (p₀.answers std events).length < events.countP Event.selects) :
    p.quit = true := by
  by_contra hquit
  have hstdin : p₀.stdin = false := by
    obtain ⟨e₀, -, rfl, -⟩ := launch_follows hlaunch
    rfl
  have hsteps := (launch_sane hlaunch).spent_stepping hrun (Bool.eq_false_iff.mpr hquit) hstdin hnone
  have hbound := steps_bounded hlaunch hrun
  rw [hsteps] at hbound
  exact absurd hlong (Nat.not_lt.mpr hbound)

/-- Twelve turns of the sample program, in which nothing arrives. -/
theorem run_quits_sample :
    ∃ p₀ p, sampleProgram = .ok p₀ ∧
      p₀.run .insertion (List.replicate 12 sampleTurn) = .ok p ∧ p.quit = true := by
  have hrun : (sampleProgram >>= fun p₀ =>
      (p₀.run .insertion (List.replicate 12 sampleTurn)).map fun _ =>
        (p₀.answers .insertion (List.replicate 12 sampleTurn)).length) = .ok 0 := by
    decide +kernel
  obtain ⟨p₀, hlaunch, hrun⟩ := bind_eq_ok.mp hrun
  obtain ⟨p, hrun, hnone⟩ := map_eq_ok hrun
  refine ⟨p₀, p, hlaunch, hrun, run_quits hlaunch hrun (by decide) ?_⟩
  rw [hnone]
  decide

/-- **The standard input stops the program.** Once something can be read from it, no turn lets the endpoint
take a step, so the program sends nothing, stores nothing and does not end. -/
theorem entered_stops {events : List Event} (std : StdSort) (hstdin : p.stdin = true) :
    ∃ p', p.run std events = .ok p' ∧ p'.quit = p.quit ∧
      p'.ep = { p.ep with tvSec := p'.ep.tvSec } := by
  induction events generalizing p with
  | nil => exact ⟨p, rfl, rfl, rfl⟩
  | cons event events ih =>
    obtain ⟨q, hstep, hstdin', hquit, hep⟩ : ∃ q, p.step std event = .ok q ∧ q.stdin = true ∧
        q.quit = p.quit ∧ q.ep = { p.ep with tvSec := q.ep.tvSec } := by
      cases event with
      | arrive a => exact ⟨_, rfl, hstdin, rfl, rfl⟩
      | enter => exact ⟨_, rfl, rfl, rfl, rfl⟩
      | turn s =>
        obtain ⟨sec, usec, hselect⟩ := p.select_eq s
        show ∃ q, p.turn std s = .ok q ∧ _
        rw [turn]
        split
        · exact ⟨p, rfl, hstdin, rfl, rfl⟩
        · have hskips : (s.failed.isSome || (p.select s).stdin) = true := by
            rw [hselect, hstdin, Bool.or_true]
          refine ⟨p.select s, if_pos hskips, ?_⟩
          rw [hselect]
          exact ⟨hstdin, rfl, rfl⟩
    obtain ⟨p', hrun, hquit', hep'⟩ := ih hstdin'
    refine ⟨p', foldlM_cons_eq_ok.mpr ⟨q, hstep, hrun⟩, hquit'.trans hquit, ?_⟩
    rw [hep', hep]

/-- The sample program, once something has been entered, is not at its end after twelve turns. -/
theorem entered_stops_sample :
    ∃ p₀ p, sampleProgram = .ok p₀ ∧
      p₀.run .insertion (.enter :: List.replicate 12 sampleTurn) = .ok p ∧ p.quit = false := by
  obtain ⟨p₀, -, hlaunch, -⟩ := sampleProgram_runs
  obtain ⟨e₀, -, rfl, -⟩ := launch_follows hlaunch
  obtain ⟨p, hrun, hquit, -⟩ : ∃ p, (⟨e₀.start, 0, [], true, false, false⟩ : Program).run .insertion
      (List.replicate 12 sampleTurn) = .ok p ∧ p.quit = false ∧ _ :=
    entered_stops .insertion rfl
  exact ⟨_, p, hlaunch, foldlM_cons_eq_ok.mpr ⟨_, rfl, hrun⟩, hquit⟩

/-! ## How long `select` waits -/

/-- How long an event makes the program wait, in microseconds. -/
def waits (p : Program) : Event → Nat
  | .turn s => if p.ended then 0 else p.waiting s
  | _ => 0

/-- The time that is set is the time that is there. -/
@[simp] theorem timeout_setTimeout (p : Program) (micros : Nat) :
    (p.setTimeout micros).timeout = micros := by
  show ((micros / microsPerSecond : Nat) : Int).toNat * microsPerSecond + micros % microsPerSecond = _
  rw [Int.toNat_natCast]
  exact Nat.div_add_mod' micros microsPerSecond

/-- What `select` has waited for is gone. -/
theorem timeout_select (hselect : s.failed = none) :
    p.waiting s + (p.select s).timeout ≤ p.timeout := by
  have hle : p.waiting s ≤ p.timeout := by
    unfold waiting
    split
    · exact Nat.min_le_right _ _
    · exact Nat.le_refl _
  rw [select, hselect, timeout_setTimeout]
  omega

/-- **Two seconds a request**: what an event makes the program wait is paid out of the timeout, to which
only a request adds. -/
theorem Sane.waits (h : p.Sane) (hselect : ∀ s, event = .turn s → s.failed = none)
    (hstep : p.step std event = .ok p') :
    p.waits event + p'.timeout + 2000000 * p.ep.conn.sent.length ≤
      p.timeout + 2000000 * p'.ep.conn.sent.length := by
  obtain ⟨e, he⟩ := h.follows
  cases event with
  | arrive a =>
    cases hstep
    show 0 + p.timeout + _ ≤ p.timeout + _
    rw [Nat.zero_add]
  | enter =>
    cases hstep
    show 0 + p.timeout + _ ≤ p.timeout + _
    rw [Nat.zero_add]
  | turn s =>
    have hpaid := timeout_select (p := p) (hselect s rfl)
    have hacted {ep : Endpoint} (hacts : p.acts s = true)
        (hep : (p.woken s).ep.transactionStep std (p.env s) = .ok ep)
        (htimeout : p'.timeout = ep.tvSec.toNat * microsPerSecond + (p.select s).usec)
        (hsent : p'.ep.conn.sent = ep.conn.sent) :
        p.waits (.turn s) + p'.timeout + 2000000 * p.ep.conn.sent.length ≤
          p.timeout + 2000000 * p'.ep.conn.sent.length := by
      have hgoes : p.waits (.turn s) = p.waiting s := by
        show (if p.ended then 0 else p.waiting s) = p.waiting s
        rw [acts] at hacts
        cases hended : p.ended with
        | true =>
          rw [hended] at hacts
          cases hacts
        | false => rfl
      have heffect : (p.woken s).ep.Effect std (.transactionStep (p.env s)) ep :=
        Endpoint.step_effect (woken_inv s h.inv) hep
      have hgrows := heffect.sent_le
      have hbefore : (p.woken s).ep.conn.sent = p.ep.conn.sent := by
        obtain ⟨sec, usec, hwoken⟩ := p.woken_eq s
        rw [hwoken]
      have hclock : (p.select s).timeout =
          (p.woken s).ep.tvSec.toNat * microsPerSecond + (p.select s).usec := rfl
      have hrearms := Endpoint.transactionStep_rearms hep
      rw [Endpoint.Rearms, hbefore] at hrearms
      rw [hbefore] at hgrows
      rw [hgoes, htimeout, hsent]
      rcases hrearms with hkept | hzero | ⟨htwo, hone⟩
      · rw [hkept]
        omega
      · rw [hzero, Int.toNat_zero, Nat.zero_mul]
        omega
      · have hmicros : ep.tvSec.toNat * microsPerSecond = 2000000 := by
          rw [htwo]
          rfl
        rw [hmicros]
        omega
    cases turned_of_turn he.waits hstep with
    | finished ended =>
      show (if p.ended then 0 else _) + _ + _ ≤ _
      rw [ended, if_pos rfl]
      omega
    | skipped goes skips =>
      have hsent : (p.select s).ep.conn.sent = p.ep.conn.sent := by
        obtain ⟨sec, usec, hselect⟩ := p.select_eq s
        rw [hselect]
      show (if p.ended then 0 else _) + _ + _ ≤ _
      rw [goes, if_neg Bool.false_ne_true, hsent]
      omega
    | @received a socket ep acts waits receives step =>
      obtain ⟨buffer, hleave⟩ := leave_eq a ep.conn
      refine hacted acts step ?_ ?_
      · rw [timeout, check_ep, check_usec]
        rfl
      · rw [check_ep, hleave]
    | @stepped ep acts receives step =>
      refine hacted acts step ?_ ?_
      · rw [timeout, check_ep, check_usec]
        rfl
      · rw [check_ep]

/-- An event spends its request from the budget. -/
theorem Sane.budget (h : p.Sane) (hstep : p.step std event = .ok p') :
    p'.ep.conn.sent.length + p'.ep.budget ≤
      p.ep.conn.sent.length + p.ep.budget + 5 * (p.accepted std event).toList.length := by
  cases h.moved hstep with
  | rested rests tvSec ep =>
    rw [ep]
    exact Nat.le_add_right _ _
  | @acted s _ ep hacts _ effect buffer same =>
    have hpaid := effect.budget_accepted (woken_inv s h.inv)
    obtain ⟨sec, usec, hwoken⟩ := p.woken_eq s
    have hbefore : (p.woken s).ep.conn.sent = p.ep.conn.sent ∧
        (p.woken s).ep.budget = p.ep.budget := by
      rw [hwoken]
      exact ⟨rfl, rfl⟩
    have hafter : p'.ep.conn.sent = ep.conn.sent ∧ p'.ep.budget = ep.budget := by
      rw [same]
      exact ⟨rfl, rfl⟩
    rw [hbefore.1, hbefore.2] at hpaid
    rw [hafter.1, hafter.2, accepted, if_pos hacts]
    exact hpaid

/-- A launched program has not sent anything, and does not wait before it does. -/
theorem launch_fresh {path buffer : List UInt8} {port : UInt16}
    (h : launch path port buffer = .ok p) :
    p.timeout = 0 ∧ p.ep.conn.sent = [] ∧ p.ep.budget = 5 := by
  obtain ⟨e₀, hcreate, rfl, -⟩ := launch_follows h
  obtain ⟨-, -, -, hcore⟩ := Endpoint.create_inv hcreate
  have hattempts : e₀.attempts = 0 := congrArg Endpoint.Core.attempts hcore
  have hclock : e₀.tvSec = 0 := by
    obtain ⟨destUri, -, hmade⟩ := bind_eq_ok.mp hcreate
    obtain ⟨name, -, hmade⟩ := bind_eq_ok.mp hmade
    cases hmade
    rfl
  refine ⟨?_, congrArg Endpoint.Core.sent hcore, ?_⟩
  · show e₀.tvSec.toNat * microsPerSecond + 0 = 0
    rw [hclock, Int.toNat_zero, Nat.zero_mul]
  · show receiveMaxAttempts + 1 - e₀.attempts = 5
    rw [hattempts, receiveMaxAttempts]

/-- What a run waits for is paid out of the timeout and its requests. -/
theorem Sane.spent_waits {events : List Event} (h : p.Sane) (hrun : p.run std events = .ok p')
    (hselect : ∀ s, .turn s ∈ events → s.failed = none) :
    spent (Program.step std) Program.waits p events + p'.timeout + 2000000 * p.ep.conn.sent.length ≤
      p.timeout + 2000000 * p'.ep.conn.sent.length :=
  spent_add_le_gain (P := Sane) Program.waits timeout (fun p => 2000000 * p.ep.conn.sent.length)
    (fun _ hevent _ _ hs hstep =>
      ⟨hs.step hstep, hs.waits (fun s heq => hselect s (heq ▸ hevent)) hstep⟩) h hrun

/-- What a run sends is paid out of the budget and the blocks that it accepts. -/
theorem Sane.sent_le {events : List Event} (h : p.Sane) (hrun : p.run std events = .ok p') :
    p'.ep.conn.sent.length + p'.ep.budget ≤
      p.ep.conn.sent.length + p.ep.budget + 5 * (p.answers std events).length := by
  have hpaid := spent_add_le (P := Sane) (fun _ _ => 0)
    (fun p event => 5 * (p.accepted std event).toList.length)
    (fun p => p.ep.conn.sent.length + p.ep.budget)
    (fun _ _ _ hs hstep => ⟨hs.step hstep, by rw [Nat.zero_add]; exact hs.budget hstep⟩) h hrun
  rw [spent_length] at hpaid
  exact (Nat.le_add_left _ _).trans hpaid

/-- **What a transfer takes.** As long as `select` does not fail, the program waits two seconds at most
for each request that it has sent, and it sends five requests at most before the first block is accepted
and five more for each accepted block. -/
theorem waiting_bounded {p₀ : Program} {path buffer : List UInt8} {port : UInt16}
    {events : List Event} (hlaunch : launch path port buffer = .ok p₀)
    (hrun : p₀.run std events = .ok p) (hselect : ∀ s, .turn s ∈ events → s.failed = none) :
    spent (Program.step std) waits p₀ events ≤ 2000000 * p.ep.conn.sent.length ∧
      p.ep.conn.sent.length ≤ 5 * ((p₀.answers std events).length + 1) := by
  have hsane := launch_sane hlaunch
  obtain ⟨hclock, hnone, hbudget⟩ := launch_fresh hlaunch
  have hwaited := hsane.spent_waits hrun hselect
  have hsent := hsane.sent_le hrun
  rw [hclock, hnone, List.length_nil, Nat.mul_zero, Nat.add_zero, Nat.zero_add] at hwaited
  rw [hnone, hbudget, List.length_nil, Nat.zero_add] at hsent
  exact ⟨(Nat.le_add_right _ _).trans hwaited, by omega⟩

/-- The sample program waits for its one request only. -/
theorem waiting_bounded_sample :
    ∃ p₀ p, sampleProgram = .ok p₀ ∧ p₀.run .insertion sampleEvents = .ok p ∧
      spent (Program.step .insertion) waits p₀ sampleEvents ≤ 2000000 * p.ep.conn.sent.length ∧
      p.ep.conn.sent.length ≤ 5 * ((p₀.answers .insertion sampleEvents).length + 1) := by
  obtain ⟨p₀, p, hlaunch, hrun, -⟩ := sampleProgram_runs
  refine ⟨p₀, p, hlaunch, hrun, waiting_bounded hlaunch hrun fun s hs => ?_⟩
  simp only [sampleEvents, sampleTurn, List.mem_cons, Event.turn.injEq, reduceCtorEq,
    List.not_mem_nil, or_false, false_or, or_self] at hs
  rw [hs]

end Program

end LibCoap
