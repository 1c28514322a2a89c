import LibCoap.Application.Program
import LibCoap.Machine.History
import LibCoap.Machine.Observation

/-! # The program runs its client

Every run of the program is a run of the endpoint on the calls that the turns of the loop make
(`Program.calls`), so what holds of every run of a client holds of the program. The endpoints of the two
runs differ in the timeout, which `select` changes and the endpoint never reads, and in the memory behind
the buffer once a receive has failed, which nothing is sent from any more (`Endpoint.Mirrors`). On the
way the program never waits in `recvfrom`, and it takes every datagram from the socket once and in
order. -/

namespace LibCoap

open Machine

/-! ## The timeout is not read -/

namespace Endpoint

/-- The same endpoint at another timeout. -/
def Timed (e f : Endpoint) : Prop := ∃ t, f = { e with tvSec := t }

/-- The timeout does not matter for transmitting. -/
theorem transmit_timed (e : Endpoint) (t : Int) (env : Env) :
    Matches Timed (e.transmit env) (({ e with tvSec := t } : Endpoint).transmit env) := by
  refine .after _ fun measured => .ite (fun _ => ⟨t, rfl⟩) fun _ => ?_
  refine .after _ fun written => .ite (fun _ => ⟨t, rfl⟩) fun _ => ?_
  unfold send
  rw [bind_assoc, bind_assoc]
  refine .after _ fun datagram => ?_
  rw [pure_bind, pure_bind]
  exact .ite (fun _ => ⟨t, rfl⟩) fun _ => ⟨_, rfl⟩

/-- The timeout does not matter for a send step. -/
theorem sendRequestHandler_timed (std : StdSort) (e : Endpoint) (t : Int) (env : Env) :
    Matches Timed (e.sendRequestHandler std env)
      (({ e with tvSec := t } : Endpoint).sendRequestHandler std env) := by
  refine .after _ ?_
  rintro ⟨ok, block2, pdu⟩
  refine .ite (fun _ => ⟨t, rfl⟩) fun _ => ?_
  exact .after _ fun pdu => transmit_timed _ t env

/-- Nor does it for a retry. -/
theorem retry_timed (e : Endpoint) (t : Int) :
    Timed e.retry ({ e with tvSec := t } : Endpoint).retry := by
  unfold retry
  by_cases h : e.attempts + 1 > receiveMaxAttempts
  · rw [if_pos h, if_pos h]
    exact ⟨t, rfl⟩
  · rw [if_neg h, if_neg h]
    exact ⟨t, rfl⟩

/-- Nor does it for storing. -/
theorem store_timed (std : StdSort) (e : Endpoint) (t : Int) :
    Matches Timed (e.store std) (({ e with tvSec := t } : Endpoint).store std) := by
  refine .after _ ?_
  rintro ⟨ok, block2, pdu⟩
  exact .ite (fun _ => ⟨t, rfl⟩) fun _ => .ite (fun _ => ⟨_, rfl⟩) fun _ => ⟨t, rfl⟩

/-- Nor does it for the examination of a datagram. -/
theorem examine_timed (std : StdSort) (e : Endpoint) (t : Int) :
    Matches Timed (e.examine std) (({ e with tvSec := t } : Endpoint).examine std) :=
  .ite (fun _ => retry_timed e t) fun _ => .ite (fun _ => ⟨t, rfl⟩) fun _ =>
    .ite (fun _ => ⟨t, rfl⟩) fun _ => store_timed std e t

/-- Nor does it for a receive step. -/
theorem receiveDataBlockHandler_timed (std : StdSort) (e : Endpoint) (t : Int) (env : Env) :
    Matches Timed (e.receiveDataBlockHandler std env)
      (({ e with tvSec := t } : Endpoint).receiveDataBlockHandler std env) := by
  refine .ite (fun _ => ?_) fun _ => retry_timed { e with state := .receiveDataBlock } t
  cases hr : env.receive with
  | none => exact ⟨t, rfl⟩
  | some r =>
    refine .after _ ?_
    rintro ⟨verdict, pdu⟩
    exact .ite (fun _ => ⟨_, rfl⟩) fun _ => examine_timed std _ _

/-- **The timeout does not matter for a step.** -/
theorem transactionStep_timed (std : StdSort) (e : Endpoint) (t : Int) (env : Env) :
    Matches Timed (e.transactionStep std env)
      (({ e with tvSec := t } : Endpoint).transactionStep std env) := by
  unfold transactionStep
  cases hnext : e.nextState with
  | idle | error | complete => exact ⟨t, rfl⟩
  | sendRequest => simpa only [hnext] using sendRequestHandler_timed std e t env
  | receiveDataBlock => simpa only [hnext] using receiveDataBlockHandler_timed std e t env

/-! ## The flag `_received` -/

variable {std : StdSort} {e e' f f' : Endpoint} {env : Env}

/-- Transmitting keeps the flag. -/
theorem transmit_received (h : e.transmit env = .ok e') : e'.received = e.received := by
  rw [transmit] at h
  obtain ⟨measured, -, h⟩ := bind_eq_ok.mp h
  split at h
  · cases h
    rfl
  obtain ⟨written, -, h⟩ := bind_eq_ok.mp h
  split at h
  · cases h
    rfl
  obtain ⟨e₁, hsend, h⟩ := bind_eq_ok.mp h
  unfold send at hsend
  obtain ⟨datagram, -, hsend⟩ := bind_eq_ok.mp hsend
  cases hsend
  split at h
  · cases h
    rfl
  · cases h
    rfl

/-- A send step keeps the flag. -/
theorem sendRequestHandler_received (h : e.sendRequestHandler std env = .ok e') :
    e'.received = e.received := by
  rw [sendRequestHandler] at h
  obtain ⟨⟨ok, block2, pdu⟩, -, h⟩ := bind_eq_ok.mp h
  cases ok with
  | false =>
    cases h
    rfl
  | true =>
    obtain ⟨request, -, h⟩ := bind_eq_ok.mp h
    have hkept := transmit_received h
    exact hkept

/-- Storing keeps the flag. -/
theorem store_received (h : e.store std = .ok e') : e'.received = e.received := by
  rw [store] at h
  obtain ⟨⟨ok, block2, pdu⟩, -, h⟩ := bind_eq_ok.mp h
  cases ok with
  | false =>
    cases h
    rfl
  | true =>
    simp only [Bool.not_true, Bool.false_eq_true, if_false] at h
    split at h
    · cases h
      rfl
    · cases h
      rfl

/-- A retry keeps the flag. -/
theorem retry_received (e : Endpoint) : e.retry.received = e.received := by
  unfold retry
  split <;> rfl

/-- A receive step takes the flag down. -/
theorem receiveDataBlockHandler_received (h : e.receiveDataBlockHandler std env = .ok e') :
    e'.received = false := by
  rw [receiveDataBlockHandler] at h
  split at h
  · split at h
    · cases h
      rfl
    obtain ⟨⟨verdict, pdu⟩, -, h⟩ := bind_eq_ok.mp h
    cases verdict with
    | false =>
      cases h
      rfl
    | true =>
      rcases examine_ends h with rfl | ⟨code, rfl⟩ | hstore
      · rw [retry_received]
        rfl
      · rfl
      · rw [store_received hstore]
        rfl
  · next hdown =>
    cases h
    rw [retry_received]
    exact Bool.eq_false_iff.mpr hdown

/-- **The flag behind a step**: only a receive step takes it down. -/
theorem transactionStep_received (h : e.transactionStep std env = .ok e') :
    e'.received = (e.received && e.nextState != .receiveDataBlock) := by
  rw [transactionStep] at h
  cases hnext : e.nextState with
  | idle | error | complete =>
    simp only [hnext] at h
    cases h
    exact (Bool.and_true e.received).symm
  | sendRequest =>
    simp only [hnext] at h
    rw [sendRequestHandler_received h]
    exact (Bool.and_true e.received).symm
  | receiveDataBlock =>
    simp only [hnext] at h
    rw [receiveDataBlockHandler_received h]
    exact (Bool.and_false e.received).symm

/-- A receive that fails leads to `ERROR`. -/
theorem transactionStep_failed (hturn : e.nextState = .receiveDataBlock)
    (hreceived : e.received = true) (hnone : env.receive = none)
    (h : e.transactionStep std env = .ok e') : e'.nextState = .error := by
  rw [transactionStep] at h
  simp only [hturn, receiveDataBlockHandler, hreceived, if_true, hnone] at h
  cases h
  rfl

/-! ## Endpoints of the two runs -/

/-- The endpoint `f` is the endpoint `e` up to the timeout and, where nothing is sent or received any
more, the memory behind the buffer. -/
structure Mirrors (e f : Endpoint) : Prop where
  same : f = { e with tvSec := f.tvSec, conn := { e.conn with buffer := f.conn.buffer } }
  buffer : e.nextState = .sendRequest ∨ e.nextState = .receiveDataBlock →
    f.conn.buffer = e.conn.buffer

/-- The same endpoint at another timeout. -/
theorem Timed.mirrors (h : e.Timed f) : e.Mirrors f := by
  obtain ⟨t, rfl⟩ := h
  exact ⟨rfl, fun _ => rfl⟩

/-- **A step is mirrored.** -/
theorem Mirrors.step (h : e.Mirrors f) (hstep : f.transactionStep std env = .ok f') :
    ∃ e', e.transactionStep std env = .ok e' ∧ e'.Mirrors f' := by
  have hsame := h.same
  by_cases hawake : e.nextState = .sendRequest ∨ e.nextState = .receiveDataBlock
  · rw [h.buffer hawake] at hsame
    have hmatches := transactionStep_timed std e f.tvSec env
    obtain ⟨e', he', htimed⟩ := hmatches.of_ok (b := f') (hsame ▸ hstep)
    exact ⟨e', he', htimed.mirrors⟩
  · have hnext : f.nextState = e.nextState := by rw [hsame]
    rw [transactionStep, hnext] at hstep
    cases hturn : e.nextState with
    | idle | error | complete =>
      simp only [hturn] at hstep
      cases hstep
      refine ⟨_, by rw [transactionStep, hturn]; rfl, ?_, fun hturn => ?_⟩
      · rw [hsame]
        rfl
      · rcases hturn with hturn | hturn <;> cases hturn
    | sendRequest => exact absurd (.inl hturn) hawake
    | receiveDataBlock => exact absurd (.inr hturn) hawake

end Endpoint

namespace Program

variable {std : StdSort} {p p' : Program} {s : Surroundings} {event : Event}

/-! ## What a turn does -/

/-- The turn lets the endpoint take a step. -/
def acts (p : Program) (s : Surroundings) : Bool := !p.ended && s.failed.isNone && !p.stdin

/-- Where `select` fails or the standard input can be read, the endpoint takes no step. -/
theorem acts_eq_false_of_skips (h : s.failed.isSome = true ∨ p.stdin = true) : p.acts s = false := by
  rw [acts]
  rcases h with hfailed | hstdin
  · rw [← Option.not_isSome, hfailed, Bool.not_true, Bool.and_false, Bool.false_and]
  · rw [hstdin, Bool.not_true, Bool.and_false]

/-- The program once `select` has returned and the endpoint is told of what waits. -/
def woken (p : Program) (s : Surroundings) : Program := (p.select s).notify

/-- `select` changes the timeout only. -/
theorem select_eq (p : Program) (s : Surroundings) :
    ∃ sec usec, p.select s = { p with ep := { p.ep with tvSec := sec }, usec := usec } := by
  unfold select
  cases s.failed with
  | some tv => exact ⟨tv.sec, tv.usec, rfl⟩
  | none => exact ⟨_, _, rfl⟩

/-- Behind `select` the timeout is another one, and the flag is up if something waits. -/
theorem woken_eq (p : Program) (s : Surroundings) : ∃ sec usec, p.woken s =
    { p with
      ep := { p.ep with tvSec := sec, received := p.ep.received || !p.socket.isEmpty }
      usec := usec } := by
  obtain ⟨sec, usec, h⟩ := p.select_eq s
  rw [woken, h]
  exact ⟨sec, usec, rfl⟩

@[simp] theorem woken_socket (p : Program) (s : Surroundings) : (p.woken s).socket = p.socket := by
  obtain ⟨sec, usec, h⟩ := p.woken_eq s
  rw [h]

@[simp] theorem woken_blocked (p : Program) (s : Surroundings) :
    (p.woken s).blocked = p.blocked := by
  obtain ⟨sec, usec, h⟩ := p.woken_eq s
  rw [h]

@[simp] theorem woken_nextState (p : Program) (s : Surroundings) :
    (p.woken s).ep.nextState = p.ep.nextState := by
  obtain ⟨sec, usec, h⟩ := p.woken_eq s
  rw [h]

@[simp] theorem woken_received (p : Program) (s : Surroundings) :
    (p.woken s).ep.received = (p.ep.received || !p.socket.isEmpty) := by
  obtain ⟨sec, usec, h⟩ := p.woken_eq s
  rw [h]

@[simp] theorem woken_env (p : Program) (s : Surroundings) : (p.woken s).env s = p.env s := by
  rw [env, env, woken_socket]

/-- **What a turn does**: nothing once the program has ended; only `select` where it fails or the
standard input can be read; and else a step of the endpoint, with or without a receive. -/
inductive Turned (std : StdSort) (p : Program) (s : Surroundings) : Program → Prop where
  | finished (ended : p.ended = true) : Turned std p s p
  | skipped (goes : p.ended = false) (skips : s.failed.isSome = true ∨ p.stdin = true) :
      Turned std p s (p.select s)
  | received {a : Arrival} {socket : List Arrival} {ep : Endpoint} (acts : p.acts s = true)
      (waits : p.socket = a :: socket) (receives : (p.woken s).receives = true)
      (step : (p.woken s).ep.transactionStep std (p.env s) = .ok ep) :
      Turned std p s
        { p.woken s with ep := { ep with conn := a.leave ep.conn }, socket := socket }.check
  | stepped {ep : Endpoint} (acts : p.acts s = true) (receives : (p.woken s).receives = false)
      (step : (p.woken s).ep.transactionStep std (p.env s) = .ok ep) :
      Turned std p s { p.woken s with ep := ep }.check

/-- **A turn does one of these**, as long as the flag is up only where something waits. -/
theorem turned_of_turn (hwaits : p.ep.received = true → p.socket ≠ [])
    (h : p.turn std s = .ok p') : Turned std p s p' := by
  rw [turn] at h
  cases hended : p.ended with
  | true =>
    rw [hended, if_pos rfl] at h
    cases h
    exact .finished hended
  | false =>
    have hstdin : (p.select s).stdin = p.stdin := by
      obtain ⟨sec, usec, hselect⟩ := p.select_eq s
      rw [hselect]
    simp only [hended, Bool.false_eq_true, if_false, hstdin] at h
    split at h
    · next hskips =>
      cases h
      exact .skipped hended (Bool.or_eq_true_iff.mp hskips)
    · next hskips =>
      rw [Bool.or_eq_true_iff, not_or, Bool.not_eq_true, Bool.not_eq_true] at hskips
      have hacts : p.acts s = true := by
        rw [acts, hended, hskips.2, ← Option.not_isSome, hskips.1]
        rfl
      obtain ⟨q, hq, h⟩ := bind_eq_ok.mp h
      cases h
      change (p.woken s).transact std s = .ok q at hq
      rw [transact, woken_env] at hq
      cases hreceives : (p.woken s).receives with
      | true =>
        rw [hreceives, if_pos rfl] at hq
        split at hq
        · -- the flag is up, so something waits
          next hempty =>
          rw [woken_socket] at hempty
          rw [receives, decide_eq_true_eq, woken_received, hempty] at hreceives
          exact absurd hempty (hwaits (by simpa using hreceives.2))
        · next a socket hsocket =>
          obtain ⟨ep, hep, hq⟩ := bind_eq_ok.mp hq
          cases hq
          rw [woken_socket] at hsocket
          exact .received hacts hsocket hreceives hep
      | false =>
        rw [hreceives, if_neg Bool.false_ne_true] at hq
        obtain ⟨ep, hep, hq⟩ := bind_eq_ok.mp hq
        cases hq
        exact .stepped hacts hreceives hep

/-! ## The run of the endpoint -/

/-- The calls of the endpoint that an event leads to. -/
def calls (p : Program) : Event → List Call
  | .turn s =>
    if p.acts s then
      (if p.socket.isEmpty then [] else [.setReceived true]) ++ [.transactionStep (p.env s)]
    else []
  | _ => []

/-- What an event takes from the socket. -/
def takes (p : Program) : Event → List Arrival
  | .turn s => if p.acts s && (p.woken s).receives then p.socket.take 1 else []
  | _ => []

/-- What an event brings to the socket. -/
def brings : Event → List Arrival
  | .arrive a => [a]
  | _ => []

/-- The program runs with the endpoint `e`: the flag is up only where something waits, and `recvfrom` has
not been called in vain. -/
structure Follows (p : Program) (e : Endpoint) : Prop where
  mirrors : e.Mirrors p.ep
  waits : p.ep.received = true → p.socket ≠ []
  free : p.blocked = false

/-- Another timeout and the same flag do not matter. -/
theorem mirrors_woken {e : Endpoint} (h : e.Mirrors p.ep) :
    Endpoint.Mirrors { e with received := p.ep.received || !p.socket.isEmpty } (p.woken s).ep := by
  obtain ⟨sec, usec, hwoken⟩ := p.woken_eq s
  have hsame := h.same
  have hbuffer := h.buffer
  rw [hwoken]
  refine ⟨?_, hbuffer⟩
  show ({ p.ep with tvSec := sec, received := _ } : Endpoint) = _
  rw [hsame]

/-- Telling the endpoint of what waits is a run of its own. -/
theorem notify_run {e : Endpoint} (std : StdSort) (h : e.Mirrors p.ep) :
    (if p.socket.isEmpty then [] else [.setReceived true]).foldlM
      (fun e call => Endpoint.step std e call) e =
        .ok { e with received := p.ep.received || !p.socket.isEmpty } := by
  have hreceived : p.ep.received = e.received := by rw [h.same]
  rw [hreceived]
  cases p.socket.isEmpty with
  | true =>
    show (.ok e : Exec Endpoint) = .ok { e with received := e.received || false }
    rw [Bool.or_false]
  | false =>
    show (.ok { e with received := true } : Exec Endpoint) =
      .ok { e with received := e.received || true }
    rw [Bool.or_true]

/-- The calls of a turn that lets the endpoint take a step. -/
theorem calls_run {e : Endpoint} (std : StdSort) (h : e.Mirrors p.ep) (hacts : p.acts s = true) :
    (p.calls (.turn s)).foldlM (fun e call => e.step std call) e =
      ({ e with received := p.ep.received || !p.socket.isEmpty } : Endpoint).transactionStep std
        (p.env s) := by
  rw [calls, if_pos hacts, List.foldlM_append, notify_run std h, ok_bind, List.foldlM_cons]
  exact bind_pure _

@[simp] theorem check_ep (p : Program) : p.check.ep = p.ep := by
  unfold check
  split <;> rfl

@[simp] theorem check_usec (p : Program) : p.check.usec = p.usec := by
  unfold check
  split <;> rfl

@[simp] theorem check_socket (p : Program) : p.check.socket = p.socket := by
  unfold check
  split <;> rfl

@[simp] theorem check_blocked (p : Program) : p.check.blocked = p.blocked := by
  unfold check
  split <;> rfl

/-- Every failure that is received leads to `ERROR`, so the memory that it clears does not matter. -/
theorem mirrors_leave {e f : Endpoint} {a : Arrival} (h : e.Mirrors f)
    (hfailed : a.receive = none → e.nextState = .error) :
    e.Mirrors { f with conn := a.leave f.conn } := by
  cases a with
  | datagram bytes => exact h
  | failure =>
    refine ⟨?_, fun hturn => ?_⟩
    · rw [h.same]
      rfl
    · rw [hfailed rfl] at hturn
      rcases hturn with hturn | hturn <;> cases hturn

/-- **Every event is matched by its calls.** -/
theorem Follows.step {e : Endpoint} (h : p.Follows e) (hstep : p.step std event = .ok p') :
    ∃ e', (p.calls event).foldlM (fun e call => e.step std call) e = .ok e' ∧ p'.Follows e' := by
  cases event with
  | arrive a =>
    cases hstep
    exact ⟨e, rfl, h.mirrors, fun _ => List.append_ne_nil_of_right_ne_nil _ (List.cons_ne_nil a []),
      h.free⟩
  | enter =>
    cases hstep
    exact ⟨e, rfl, h.mirrors, h.waits, h.free⟩
  | turn s =>
    have hwoken := mirrors_woken (s := s) h.mirrors
    cases turned_of_turn h.waits hstep with
    | finished ended =>
      have hrests : p.acts s = false := by rw [acts, ended]; rfl
      exact ⟨e, by rw [calls, hrests]; rfl, h⟩
    | skipped goes skips =>
      have hrests : p.acts s = false := acts_eq_false_of_skips skips
      refine ⟨e, by rw [calls, hrests]; rfl, ?_⟩
      obtain ⟨sec, usec, hselect⟩ := p.select_eq s
      rw [hselect]
      refine ⟨⟨?_, h.mirrors.buffer⟩, h.waits, h.free⟩
      show ({ p.ep with tvSec := sec } : Endpoint) = _
      rw [h.mirrors.same]
    | @received a socket ep acts waits receives step =>
      rw [Program.receives, decide_eq_true_eq] at receives
      have hcalls := calls_run std h.mirrors acts
      obtain ⟨e', he', hmirrors⟩ := hwoken.step step
      refine ⟨e', hcalls.trans he', ?_, fun hup => ?_, ?_⟩
      · rw [check_ep]
        refine mirrors_leave hmirrors fun hnone => ?_
        have henv : (p.env s).receive = none := by rw [env, waits]; exact hnone
        have hturn : p.ep.nextState = .receiveDataBlock := p.woken_nextState s ▸ receives.1
        have hnext := Endpoint.transactionStep_failed receives.1 receives.2 henv step
        rw [hmirrors.same] at hnext
        exact hnext
      · -- the receive has taken the flag down
        rw [check_ep] at hup
        have hdown := Endpoint.transactionStep_received step
        rw [receives.1] at hdown
        simp only [hdown, bne_self_eq_false, Bool.and_false, Bool.false_eq_true] at hup
      · rw [check_blocked]
        exact (p.woken_blocked s).trans h.free
    | @stepped ep acts receives step =>
      have hcalls := calls_run std h.mirrors acts
      obtain ⟨e', he', hmirrors⟩ := hwoken.step step
      refine ⟨e', hcalls.trans he', ?_, fun hup => ?_, ?_⟩
      · rw [check_ep]
        exact hmirrors
      · rw [check_ep] at hup
        rw [check_socket]
        have hkept := Endpoint.transactionStep_received step
        rw [hup, woken_received] at hkept
        have hflag := (Bool.and_eq_true_iff.mp hkept.symm).1
        rw [woken_socket]
        rcases Bool.or_eq_true_iff.mp hflag with hbefore | hsome
        · exact h.waits hbefore
        · exact fun hempty => by rw [hempty] at hsome; cases hsome
      · rw [check_blocked]
        exact (p.woken_blocked s).trans h.free

/-- The socket is a queue. -/
theorem takes_brings (hwaits : p.ep.received = true → p.socket ≠ [])
    (hstep : p.step std event = .ok p') :
    p.takes event ++ p'.socket = p.socket ++ brings event := by
  cases event with
  | arrive a =>
    cases hstep
    rfl
  | enter =>
    cases hstep
    exact (List.append_nil _).symm
  | turn s =>
    show p.takes (.turn s) ++ p'.socket = p.socket ++ []
    rw [List.append_nil]
    cases turned_of_turn hwaits hstep with
    | finished ended =>
      have hrests : p.acts s = false := by rw [acts, ended]; rfl
      rw [takes, hrests]
      rfl
    | skipped goes skips =>
      obtain ⟨sec, usec, hselect⟩ := p.select_eq s
      have hrests : p.acts s = false := acts_eq_false_of_skips skips
      rw [takes, hrests, hselect]
      rfl
    | received acts waits receives =>
      rw [takes, acts, receives, check_socket, waits]
      rfl
    | stepped acts receives =>
      rw [takes, acts, receives, check_socket]
      exact p.woken_socket s

/-- A launched program is a client that has been started. -/
theorem launch_follows {path buffer : List UInt8} {port : UInt16}
    (h : launch path port buffer = .ok p) :
    ∃ e₀, Endpoint.create path (.open port buffer) .fresh 0 .unknown = .ok e₀ ∧
      p = ⟨e₀.start, 0, [], false, false, false⟩ ∧ p.Follows e₀.start := by
  obtain ⟨e₀, hcreate, h⟩ := bind_eq_ok.mp h
  cases h
  obtain ⟨destUri, -, hmade⟩ := bind_eq_ok.mp hcreate
  obtain ⟨name, -, hmade⟩ := bind_eq_ok.mp hmade
  refine ⟨e₀, hcreate, rfl, ⟨rfl, fun _ => rfl⟩, fun hup => ?_, rfl⟩
  cases hmade
  cases hup

/-- **Every run of the program is a run of its client.** The program never waits in `recvfrom`, it
takes what arrives at the socket once and in order, and its endpoint is where a client comes to by
`start` and the calls that the turns of the loop make. -/
theorem run_refines {p₀ : Program} {path buffer : List UInt8} {port : UInt16} {events : List Event}
    (hlaunch : launch path port buffer = .ok p₀) (hrun : p₀.run std events = .ok p) :
    p.blocked = false ∧
      emitted (step std) takes p₀ events ++ p.socket = events.flatMap brings ∧
      ∃ e₀ e, Endpoint.create path (.open port buffer) .fresh 0 .unknown = .ok e₀ ∧
        e₀.run std (.start :: emitted (step std) calls p₀ events) = .ok e ∧ e.Mirrors p.ep := by
  obtain ⟨e₀, hcreate, hp₀, hfollows⟩ := launch_follows hlaunch
  obtain ⟨e, he, hend⟩ : ∃ e, (emitted (step std) calls p₀ events).foldlM
      (fun e call => e.step std call) e₀.start = .ok e ∧ p.Follows e :=
    run_simulates (fun _ _ _ _ hR hstep => hR.step hstep) hfollows hrun
  have hqueue : emitted (step std) takes p₀ events ++ p.socket =
      p₀.socket ++ emitted (step std) (fun _ => brings) p₀ events := by
    refine emitted_queue (P := fun p => ∃ e, p.Follows e) socket ?_ ⟨_, hfollows⟩ hrun
    rintro q event q' ⟨f, hf⟩ hstep
    obtain ⟨f', -, hf'⟩ := hf.step hstep
    exact ⟨⟨f', hf'⟩, takes_brings hf.waits hstep⟩
  have hbrought : emitted (step std) (fun _ => brings) p₀ events = events.flatMap brings :=
    emitted_const hrun
  rw [hbrought, hp₀, List.nil_append] at hqueue
  exact ⟨hend.free, hp₀ ▸ hqueue, e₀, e, hcreate, Endpoint.run_cons.mpr ⟨_, rfl, he⟩, hend.mirrors⟩

/-- The sample program receives its one datagram. -/
theorem run_refines_sample :
    ∃ p₀ p, sampleProgram = .ok p₀ ∧ p₀.run .insertion sampleEvents = .ok p ∧ p.blocked = false ∧
      emitted (step .insertion) takes p₀ sampleEvents ++ p.socket = sampleEvents.flatMap brings := by
  obtain ⟨p₀, p, hlaunch, hrun, -⟩ := sampleProgram_runs
  have hrefines := run_refines hlaunch hrun
  exact ⟨p₀, p, hlaunch, hrun, hrefines.1, hrefines.2.1⟩

end Program

end LibCoap
