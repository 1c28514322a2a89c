import LibCoap.Client.Request

/-! # What a client stores and how often it asks

Three laws of every run: the file is the concatenation of the accepted payloads, a request is repeated
at most `RECEIVE_MAX_ATTEMPTS` times, and the block counter follows the accepted answers. Each is a
lemma about one call (`Effect`) and an induction over the run. -/

namespace LibCoap

open Machine

namespace Endpoint

/-- The answer that a call accepts. -/
def acceptedBy (std : StdSort) (e : Endpoint) : Call → Option Answer
  | .transactionStep env => e.accepted std env
  | _ => none

/-- The answers that a run accepts, in order. -/
def answers (std : StdSort) : Endpoint → List Call → List Answer
  | _, [] => []
  | e, call :: calls =>
    (e.acceptedBy std call).toList ++
      match e.step std call with
      | .ok e' => answers std e' calls
      | .error _ => []

/-- The answers of a run that goes on. -/
theorem answers_cons {std : StdSort} {e e' : Endpoint} {call : Call} {calls : List Call}
    (h : e.step std call = .ok e') :
    e.answers std (call :: calls) = (e.acceptedBy std call).toList ++ e'.answers std calls := by
  rw [answers, h]

variable {std : StdSort} {e e' : Endpoint} {call : Call} {calls : List Call}

/-- A run is a first call and a run. -/
theorem run_cons : e.run std (call :: calls) = .ok e' ↔
    ∃ e₁, e.step std call = .ok e₁ ∧ e₁.run std calls = .ok e' := by
  rw [run, List.foldlM_cons]
  exact bind_eq_ok

/-! ## The file -/

/-- Only an awaited answer is accepted. -/
theorem accepted_turn {env : Env} {a : Answer} (h : e.accepted std env = some a) :
    e.nextState = .receiveDataBlock := by
  rw [accepted] at h
  by_contra hturn
  simp [guard, hturn] at h

/-- Nothing is accepted where no answer is awaited. -/
theorem accepted_eq_none {env : Env} (hturn : e.nextState ≠ .receiveDataBlock) :
    e.accepted std env = none := by
  cases ha : e.accepted std env with
  | none => rfl
  | some a => exact absurd (accepted_turn ha) hturn

/-- What is accepted has been delivered and parsed, with the id of the request and a Block2 option
that can be read. -/
theorem accepted_eq_some {env : Env} {a : Answer}
    (h : e.accepted std env = some a) :
    ∃ r q b p', env.receive = some r ∧
      Packet.fresh.parse r.buffer r.length = .ok (true, q) ∧ e.requestId = some q.messageId ∧
      Blockwise.init.block2GetHeader std q = .ok (true, b, p') ∧
      a = ⟨q.payload, b.number, b.size, b.more⟩ := by
  simp only [accepted, answerOf, Option.bind_eq_bind, Option.bind_eq_some_iff,
    Option.guard_eq_some'] at h
  obtain ⟨-, -, r, hr, ⟨verdict, q⟩, hparse, -, rfl, -, ⟨-, hid, -⟩, ⟨ok, b, p'⟩, hheader, -, rfl,
    ha⟩ := h
  exact ⟨r, q, b, p', hr, toOption_eq_some hparse, hid, toOption_eq_some hheader,
    (Option.some.inj ha).symm⟩

/-- **One call appends what it accepts.** -/
theorem Effect.downloaded (h : Effect std e call e') :
    e'.downloaded = e.downloaded ++ ((e.acceptedBy std call).toList.map Answer.payload).flatten := by
  have hsame (hcore : e'.downloaded = e.downloaded) (hnone : e.acceptedBy std call = none) :
      e'.downloaded =
        e.downloaded ++ ((e.acceptedBy std call).toList.map Answer.payload).flatten := by
    simp [hcore, hnone]
  -- only `took` writes into the file
  cases h with
  | start core => exact hsame (congrArg Core.downloaded core) rfl
  | stop core => exact hsame (congrArg Core.downloaded core) rfl
  | setReceived core => exact hsame (congrArg Core.downloaded core) rfl
  | rest _ turn' core => exact hsame (congrArg Core.downloaded core) (accepted_eq_none turn')
  | requested turn requested =>
    exact hsame (congrArg Core.downloaded requested.core) (accepted_eq_none (by simp [turn]))
  | unsent turn unsent =>
    exact hsame (congrArg Core.downloaded unsent.core) (accepted_eq_none (by simp [turn]))
  | took _ accepted took => simp [acceptedBy, accepted, took.downloaded]
  | declined _ accepted declined =>
    exact hsame (congrArg Core.downloaded declined.core) accepted

/-- **A run appends what it accepts**, in order and once each. -/
theorem run_downloaded (hinv : e.Inv) (h : e.run std calls = .ok e') :
    e'.downloaded = e.downloaded ++ ((e.answers std calls).map Answer.payload).flatten := by
  induction calls generalizing e with
  | nil =>
    cases h
    simp [answers]
  | cons call calls ih =>
    obtain ⟨e₁, hstep, hrun⟩ := run_cons.mp h
    have heffect := step_effect hinv hstep
    rw [ih (heffect.inv hinv) hrun, heffect.downloaded, answers_cons hstep]
    simp [List.append_assoc]

/-- **A transfer becomes complete by its last block.** -/
theorem Effect.completes (h : Effect std e call e') :
    (e.nextState ≠ .complete ∧ e'.nextState = .complete) ↔
      ∃ a, e.acceptedBy std call = some a ∧ a.more = false := by
  -- only `took` can lead to `COMPLETE`
  cases h with
  | start _ _ next => simp [acceptedBy, next]
  | stop _ _ next => simp [acceptedBy, next]
  | setReceived _ _ _ next => simp [acceptedBy, next]
  | rest _ turn' _ next => simp [acceptedBy, next, accepted_eq_none turn']
  | requested turn requested =>
    have hnext : e'.nextState ≠ .complete := by
      rcases requested.next with h | h <;> simp [h]
    have hturn : e.nextState ≠ .receiveDataBlock := by simp [turn]
    simp [acceptedBy, hnext, accepted_eq_none hturn]
  | unsent turn unsent =>
    have hturn : e.nextState ≠ .receiveDataBlock := by simp [turn]
    simp [acceptedBy, unsent.next, accepted_eq_none hturn]
  | @took _ env a turn accepted took =>
    simp only [acceptedBy, accepted, Option.some.injEq, took.nextState, turn]
    cases hmore : a.more <;> simp [hmore]
  | declined _ accepted declined =>
    have hnext : e'.nextState ≠ .complete := by
      rcases declined.next with ⟨h, -, -⟩ | ⟨h, -⟩ <;> simp [h]
    simp [acceptedBy, accepted, hnext]

/-- **The file is what has been accepted.** Along every run of a client the file holds the payloads
of the accepted datagrams and nothing else, each call appends what it accepts, and the transfer
becomes complete exactly by an accepted datagram whose more bit is not set. -/
theorem downloaded_eq_accepted {path : List UInt8} {conn : Connection} {pdu : Packet} {tvSec : Int}
    {error : ErrorCode} {e₀ : Endpoint} (hcreate : create path conn pdu tvSec error = .ok e₀)
    (hrun : e₀.run std calls = .ok e) :
    e.downloaded = ((e₀.answers std calls).map Answer.payload).flatten ∧
      ∀ call e', e.step std call = .ok e' →
        e'.downloaded =
          e.downloaded ++ ((e.acceptedBy std call).toList.map Answer.payload).flatten ∧
        ((e.nextState ≠ .complete ∧ e'.nextState = .complete) ↔
          ∃ a, e.acceptedBy std call = some a ∧ a.more = false) := by
  obtain ⟨hinv, -, -, hcore⟩ := create_inv hcreate
  have hempty : e₀.downloaded = [] := congrArg Core.downloaded hcore
  refine ⟨?_, fun call e' hstep => ?_⟩
  · rw [run_downloaded hinv hrun, hempty, List.nil_append]
  · have heffect := step_effect (run_inv hinv hrun) hstep
    exact ⟨heffect.downloaded, heffect.completes⟩

/-- The options of a sample answer: an ETag, the given Block2 value and a Size2 option. -/
def sampleOptions (block : UInt8) : List UInt8 := [0x41, 0xAA, 0xD1, 0x06, block, 0x51, 0x01]

/-- An answer to a request of the sample client: a message id, a Block2 value and a payload. -/
def sampleDatagram (high low block : UInt8) (payload : List UInt8) : List UInt8 :=
  0x60 :: 0x45 :: high :: low :: (sampleOptions block ++ Wire.payloadBytes payloadMarker payload)

/-- The answer with the message id `1` and one byte of payload. -/
def sampleAnswer (block : UInt8) : Received :=
  .cleared (sampleDatagram 0x00 0x01 block [0x2A])
    (by simp [sampleDatagram, sampleOptions, Wire.payloadBytes, bufferMaxSize])

/-- A whole transfer: the request, and its answer with the given Block2 value. -/
def sampleTransfer (block : UInt8) : List Call :=
  [.start, .transactionStep sampleEnv, .setReceived true,
    .transactionStep ⟨0, true, some (sampleAnswer block)⟩]

/-- The transfer of a resource of one byte, as far as it can be seen from outside. -/
theorem sampleTransfer_runs :
    ∃ e₀ e, sampleClient = .ok e₀ ∧ e₀.run .insertion (sampleTransfer 0x07) = .ok e ∧
      e.downloaded = [0x2A] ∧ e.nextState = .complete := by
  have hrun : (sampleClient >>= fun e₀ =>
      (e₀.run .insertion (sampleTransfer 0x07)).map fun e => (e.downloaded, e.nextState)) =
        .ok ([0x2A], .complete) := by
    decide +kernel
  obtain ⟨e₀, hcreate, hrun⟩ := bind_eq_ok.mp hrun
  obtain ⟨e, hrun, hseen⟩ := map_eq_ok hrun
  obtain ⟨hdownloaded, hnext⟩ := Prod.mk.inj hseen
  exact ⟨e₀, e, hcreate, hrun, hdownloaded, hnext⟩

/-- The second of two blocks, with the message id `2`. -/
def secondAnswer : Env :=
  ⟨0, true, some (.cleared (sampleDatagram 0x00 0x02 0x17 [0x2B]) (by decide))⟩

/-- The file of a transfer of two blocks is what the two answers carry, and the second one ends it. -/
theorem downloaded_eq_accepted_sample :
    ∃ e₀ e e', sampleClient = .ok e₀ ∧
      e₀.run .insertion (sampleTransfer 0x0F ++ [.transactionStep sampleEnv, .setReceived true]) =
        .ok e ∧
      e.step .insertion (.transactionStep secondAnswer) = .ok e' ∧
      e.downloaded = [0x2A] ∧ e'.downloaded = [0x2A, 0x2B] ∧ e'.nextState = .complete ∧
      e.downloaded = ((e₀.answers .insertion (sampleTransfer 0x0F ++
        [.transactionStep sampleEnv, .setReceived true])).map Answer.payload).flatten ∧
      e'.downloaded = e.downloaded ++
        ((e.acceptedBy .insertion (.transactionStep secondAnswer)).toList.map Answer.payload).flatten ∧
      ((e.nextState ≠ .complete ∧ e'.nextState = .complete) ↔
        ∃ a, e.acceptedBy .insertion (.transactionStep secondAnswer) = some a ∧ a.more = false) := by
  have hrun : (sampleClient >>= fun e₀ =>
      e₀.run .insertion (sampleTransfer 0x0F ++ [.transactionStep sampleEnv, .setReceived true]) >>=
        fun e => (e.step .insertion (.transactionStep secondAnswer)).map
          fun e' => (e.downloaded, e'.downloaded, e'.nextState)) =
      .ok ([0x2A], [0x2A, 0x2B], .complete) := by
    decide +kernel
  obtain ⟨e₀, hcreate, hrun⟩ := bind_eq_ok.mp hrun
  obtain ⟨e, hrun, hstep⟩ := bind_eq_ok.mp hrun
  obtain ⟨e', hstep, hseen⟩ := map_eq_ok hstep
  simp only [Prod.mk.injEq] at hseen
  obtain ⟨hfirst, hsecond, hnext⟩ := hseen
  obtain ⟨hfile, hcalls⟩ := downloaded_eq_accepted hcreate hrun
  obtain ⟨hadds, hcompletes⟩ := hcalls _ e' hstep
  exact ⟨e₀, e, e', hcreate, hrun, hstep, hfirst, hsecond, hnext, hfile, hadds, hcompletes⟩

/-! ## The attempts -/

/-- How many more requests a client can send on its own. -/
def budget (e : Endpoint) : Nat :=
  match e.nextState with
  | .sendRequest => receiveMaxAttempts + 1 - e.attempts
  | .receiveDataBlock => receiveMaxAttempts - e.attempts
  | _ => 0

/-- **One call spends its request from the budget**, unless it is a start or accepts an answer. -/
theorem Effect.budget (hinv : e.Inv) (h : Effect std e call e') (hstart : call ≠ .start)
    (hnone : e.acceptedBy std call = none) :
    e'.conn.sent.length + e'.budget ≤ e.conn.sent.length + e.budget := by
  have hattempts := hinv.attempts
  have hsent (hcore : e'.core = e.core) : e'.conn.sent.length = e.conn.sent.length :=
    congrArg (fun c : Core => c.sent.length) hcore
  cases h with
  | start => exact absurd rfl hstart
  | stop core _ next => simp [Endpoint.budget, next, hsent core]
  | setReceived core _ _ next =>
    have hsame : e'.attempts = e.attempts := congrArg Core.attempts core
    simp [Endpoint.budget, next, hsent core, hsame]
  | rest _ _ core next => simp [Endpoint.budget, next, hsent core]
  | @requested _ env p turn requested =>
    have hsame : e'.attempts = e.attempts := congrArg Core.attempts requested.core
    have hlength : e'.conn.sent.length = e.conn.sent.length + 1 := by
      have hcore : e'.conn.sent = e.conn.sent ++ [p.wireBytes] := congrArg Core.sent requested.core
      simp [hcore]
    -- a request that is sent uses up one, whether an answer is awaited or `send` has failed
    rcases requested.next with hnext | hnext
    · simp only [Endpoint.budget, turn, hnext, hsame, hlength]
      omega
    · simp only [Endpoint.budget, turn, hnext, hlength]
      omega
  | unsent turn unsent =>
    have hsame : e'.conn.sent.length = e.conn.sent.length :=
      congrArg (fun c : Core => c.sent.length) unsent.core
    simp [Endpoint.budget, unsent.next, hsame]
  | took _ accepted =>
    rw [acceptedBy, accepted] at hnone
    cases hnone
  | declined turn _ declined =>
    have hsame : e'.conn.sent.length = e.conn.sent.length :=
      congrArg (fun c : Core => c.sent.length) declined.core
    -- a retry costs an attempt, and the next request is the one that it pays for
    rcases declined.next with ⟨hnext, hone, hle⟩ | ⟨hnext, -⟩
    · simp only [Endpoint.budget, turn, hnext, hone, hsame]
      omega
    · simp [Endpoint.budget, hnext, hsame]

/-- A run spends its requests from the budget. -/
theorem run_budget (hinv : e.Inv) (h : e.run std calls = .ok e') (hstart : Call.start ∉ calls)
    (hnone : e.answers std calls = []) :
    e'.conn.sent.length + e'.budget ≤ e.conn.sent.length + e.budget := by
  induction calls generalizing e with
  | nil =>
    cases h
    exact Nat.le_refl _
  | cons call calls ih =>
    obtain ⟨e₁, hstep, hrun⟩ := run_cons.mp h
    have heffect := step_effect hinv hstep
    -- a run that accepts nothing accepts nothing in its first call and nothing later
    rw [answers_cons hstep, List.append_eq_nil_iff] at hnone
    have hcall : e.acceptedBy std call = none := by simpa using hnone.1
    have hfirst := heffect.budget hinv (fun h => hstart (by simp [h])) hcall
    have hrest := ih (heffect.inv hinv) hrun (fun h => hstart (by simp [h])) hnone.2
    exact hrest.trans hfirst

/-- Nothing is asked or stored in a state of rest. -/
theorem Effect.resting (h : Effect std e call e') (hstart : call ≠ .start)
    (hsend : e.nextState ≠ .sendRequest) (hwait : e.nextState ≠ .receiveDataBlock) :
    e'.core = e.core ∧ e'.nextState ≠ .sendRequest ∧ e'.nextState ≠ .receiveDataBlock := by
  cases h with
  | start => exact absurd rfl hstart
  | stop core _ next => exact ⟨core, by simp [next], by simp [next]⟩
  | setReceived core _ _ next => exact ⟨core, next ▸ hsend, next ▸ hwait⟩
  | rest _ _ core next => exact ⟨core, by simp [next], by simp [next]⟩
  | requested turn => exact absurd turn hsend
  | unsent turn => exact absurd turn hsend
  | took turn => exact absurd turn hwait
  | declined turn => exact absurd turn hwait

/-- A client at rest stays so until it is started. -/
theorem run_resting (hinv : e.Inv) (h : e.run std calls = .ok e') (hstart : Call.start ∉ calls)
    (hsend : e.nextState ≠ .sendRequest) (hwait : e.nextState ≠ .receiveDataBlock) :
    e'.core = e.core := by
  induction calls generalizing e with
  | nil =>
    cases h
    rfl
  | cons call calls ih =>
    obtain ⟨e₁, hstep, hrun⟩ := run_cons.mp h
    have heffect := step_effect hinv hstep
    obtain ⟨hcore, hsend', hwait'⟩ :=
      heffect.resting (fun h => hstart (by simp [h])) hsend hwait
    rw [ih (heffect.inv hinv) hrun (fun h => hstart (by simp [h])) hsend' hwait', hcore]

/-- **Retransmission is bounded.** In every state that a client reaches the attempts are within
`RECEIVE_MAX_ATTEMPTS`; from there on at most `RECEIVE_MAX_ATTEMPTS + 1` requests are sent as long as
the client is not started and accepts nothing; and an ERROR or COMPLETE step ends the sending and
storing until the next start. -/
theorem retransmission_bounded {path : List UInt8} {conn : Connection} {pdu : Packet} {tvSec : Int}
    {error : ErrorCode} {e₀ : Endpoint} (hcreate : create path conn pdu tvSec error = .ok e₀)
    (hrun : e₀.run std calls = .ok e) :
    e.attempts ≤ receiveMaxAttempts ∧
      (∀ later e', e.run std later = .ok e' → Call.start ∉ later → e.answers std later = [] →
        e'.conn.sent.length ≤ e.conn.sent.length + (receiveMaxAttempts + 1)) ∧
      ∀ env later e₁ e', e.nextState = .error ∨ e.nextState = .complete →
        e.step std (.transactionStep env) = .ok e₁ → e₁.run std later = .ok e' →
        Call.start ∉ later →
        e'.conn.sent = e.conn.sent ∧ e'.downloaded = e.downloaded := by
  have hinv := run_inv (create_inv hcreate).1 hrun
  refine ⟨hinv.attempts, fun later e' hlater hstart hnone => ?_,
    fun env later e₁ e' hended hstep hlater hstart => ?_⟩
  · have hspent := run_budget hinv hlater hstart hnone
    have hbudget : e.budget ≤ receiveMaxAttempts + 1 := by
      unfold Endpoint.budget
      split <;> omega
    omega
  · have hsend : e.nextState ≠ .sendRequest := by
      rcases hended with h | h <;> simp [h]
    have hwait : e.nextState ≠ .receiveDataBlock := by
      rcases hended with h | h <;> simp [h]
    have hall : e.run std (.transactionStep env :: later) = .ok e' :=
      run_cons.mpr ⟨e₁, hstep, hlater⟩
    have hcore := run_resting hinv hall (by simpa using hstart) hsend hwait
    exact ⟨congrArg Core.sent hcore, congrArg Core.downloaded hcore⟩

/-- Behind a retry the sample client has used one attempt, and sends five requests at most from there on;
behind the last block it sends and stores nothing. -/
theorem retransmission_bounded_sample :
    (∃ e₀ e, sampleClient = .ok e₀ ∧
      e₀.run .insertion [.start, .transactionStep sampleEnv, .transactionStep sampleEnv] = .ok e ∧
      e.attempts = 1 ∧ e.attempts ≤ receiveMaxAttempts ∧
      ∀ later e', e.run .insertion later = .ok e' → Call.start ∉ later →
        e.answers .insertion later = [] → e'.conn.sent.length ≤ e.conn.sent.length + 5) ∧
    ∃ e₀ e, sampleClient = .ok e₀ ∧ e₀.run .insertion (sampleTransfer 0x07) = .ok e ∧
      ∀ env later e₁ e', e.step .insertion (.transactionStep env) = .ok e₁ →
        e₁.run .insertion later = .ok e' → Call.start ∉ later →
        e'.conn.sent = e.conn.sent ∧ e'.downloaded = [0x2A] := by
  constructor
  · have hrun : (sampleClient >>= fun e₀ => (e₀.run .insertion
        [.start, .transactionStep sampleEnv, .transactionStep sampleEnv]).map Endpoint.attempts) =
          .ok 1 := by
      decide +kernel
    obtain ⟨e₀, hcreate, hrun⟩ := bind_eq_ok.mp hrun
    obtain ⟨e, hrun, hattempts⟩ := map_eq_ok hrun
    obtain ⟨hbound, hsends, -⟩ := retransmission_bounded hcreate hrun
    exact ⟨e₀, e, hcreate, hrun, hattempts, hbound, hsends⟩
  · obtain ⟨e₀, e, hcreate, hrun, hdownloaded, hnext⟩ := sampleTransfer_runs
    refine ⟨e₀, e, hcreate, hrun, fun env later e₁ e' hstep hlater hstart => ?_⟩
    obtain ⟨-, -, hends⟩ := retransmission_bounded hcreate hrun
    obtain ⟨hsent, hfile⟩ := hends env later e₁ e' (.inr hnext) hstep hlater hstart
    exact ⟨hsent, hfile.trans hdownloaded⟩

/-! ## The block counter -/

/-- **The block counter follows the accepted answers.** A call that accepts an answer stores its
payload and takes its block number and size, whichever block they denote; every other call stores
nothing and keeps the block number. -/
theorem counter_follows_accepted {path : List UInt8} {conn : Connection} {pdu : Packet} {tvSec : Int}
    {error : ErrorCode} {e₀ : Endpoint} (hcreate : create path conn pdu tvSec error = .ok e₀)
    (hrun : e₀.run std calls = .ok e) (hstep : e.step std call = .ok e') :
    (∃ a, e.acceptedBy std call = some a ∧ e'.downloaded = e.downloaded ++ a.payload ∧
        e'.block2.number = (if a.more then a.number + 1 else a.number) ∧
        e'.block2.size = a.size) ∨
      (e.acceptedBy std call = none ∧ e'.downloaded = e.downloaded ∧
        e'.block2.number = e.block2.number) := by
  have heffect := step_effect (run_inv (create_inv hcreate).1 hrun) hstep
  have hstored := heffect.downloaded
  -- the number moves with `took` alone; a request may set the size anew, but keeps the number
  cases ha : e.acceptedBy std call with
  | some a =>
    rw [ha] at hstored
    refine .inl ⟨a, rfl, by simpa using hstored, ?_⟩
    cases heffect with
    | start | stop | setReceived => cases ha
    | rest _ turn' => exact absurd (accepted_turn ha) turn'
    | requested turn => exact absurd (accepted_turn ha) (by simp [turn])
    | unsent turn => exact absurd (accepted_turn ha) (by simp [turn])
    | took _ accepted took =>
      obtain rfl := Option.some.inj (accepted.symm.trans ha)
      exact ⟨took.number, took.size⟩
    | declined _ accepted => exact absurd (accepted.symm.trans ha) (by simp)
  | none =>
    rw [ha] at hstored
    refine .inr ⟨rfl, by simpa using hstored, ?_⟩
    have hnumber (hcore : e'.block2 = e.block2) : e'.block2.number = e.block2.number := by
      rw [hcore]
    cases heffect with
    | start core => exact hnumber (congrArg Core.block2 core)
    | stop core => exact hnumber (congrArg Core.block2 core)
    | setReceived core => exact hnumber (congrArg Core.block2 core)
    | rest _ _ core => exact hnumber (congrArg Core.block2 core)
    | requested _ requested =>
      have hcore : e'.block2 = e.block2.restarted := congrArg Core.block2 requested.core
      rw [hcore, Blockwise.restarted_number]
    | unsent _ unsent =>
      have hcore : e'.block2 = e.block2.restarted := congrArg Core.block2 unsent.core
      rw [hcore, Blockwise.restarted_number]
    | took _ accepted => exact absurd (accepted.symm.trans ha) (by simp)
    | declined _ _ declined => exact hnumber (congrArg Core.block2 declined.core)

/-- The byte offset that the outstanding request asks for. -/
def askedOffset (e : Endpoint) : Nat := e.block2.number.toNat * e.block2.size.toNat

/-- The sample client asks for block 0, and accepts block 5. -/
theorem fifthBlock_accepted :
    ∃ e₀ e e', sampleClient = .ok e₀ ∧
      e₀.run .insertion [.start, .transactionStep sampleEnv, .setReceived true] = .ok e ∧
      e.step .insertion (.transactionStep ⟨0, true, some (sampleAnswer 0x50)⟩) = .ok e' ∧
      e.askedOffset = 0 ∧
      e.acceptedBy .insertion (.transactionStep ⟨0, true, some (sampleAnswer 0x50)⟩) =
        some ⟨[0x2A], 5, 16, false⟩ := by
  have hrun : (sampleClient >>= fun e₀ =>
      e₀.run .insertion [.start, .transactionStep sampleEnv, .setReceived true] >>= fun e =>
        (e.step .insertion (.transactionStep ⟨0, true, some (sampleAnswer 0x50)⟩)).map
          fun _ => (e.askedOffset, e.acceptedBy .insertion
            (.transactionStep ⟨0, true, some (sampleAnswer 0x50)⟩))) =
      .ok (0, some ⟨[0x2A], 5, 16, false⟩) := by
    decide +kernel
  obtain ⟨e₀, hcreate, hrun⟩ := bind_eq_ok.mp hrun
  obtain ⟨e, hrun, hstep⟩ := bind_eq_ok.mp hrun
  obtain ⟨e', hstep, hseen⟩ := map_eq_ok hstep
  obtain ⟨hasked, haccepted⟩ := Prod.mk.inj hseen
  exact ⟨e₀, e, e', hcreate, hrun, hstep, hasked, haccepted⟩

/-- The counter follows the answer to block 5, which has not been asked for. -/
theorem counter_follows_accepted_sample :
    ∃ e₀ e e', sampleClient = .ok e₀ ∧
      e₀.run .insertion [.start, .transactionStep sampleEnv, .setReceived true] = .ok e ∧
      e.step .insertion (.transactionStep ⟨0, true, some (sampleAnswer 0x50)⟩) = .ok e' ∧
      e.askedOffset = 0 ∧ e'.downloaded = e.downloaded ++ [0x2A] ∧ e'.block2.number = 5 ∧
      e'.block2.size = 16 := by
  obtain ⟨e₀, e, e', hcreate, hrun, hstep, hasked, haccepted⟩ := fifthBlock_accepted
  refine ⟨e₀, e, e', hcreate, hrun, hstep, hasked, ?_⟩
  rcases counter_follows_accepted hcreate hrun hstep with ⟨a, ha, hstored⟩ | ⟨hnone, -⟩
  · obtain rfl := Option.some.inj (haccepted.symm.trans ha)
    exact hstored
  · cases haccepted.symm.trans hnone

/-- The answer to the request for block 0 may carry block 5: its payload is stored, and the block
counter moves to 5. -/
theorem other_block_stored :
    ¬∀ e₀ e e' a, sampleClient = .ok e₀ →
      e₀.run .insertion [.start, .transactionStep sampleEnv, .setReceived true] = .ok e →
      e.step .insertion (.transactionStep ⟨0, true, some (sampleAnswer 0x50)⟩) = .ok e' →
      e.acceptedBy .insertion (.transactionStep ⟨0, true, some (sampleAnswer 0x50)⟩) = some a →
      a.number.toNat * a.size.toNat = e.askedOffset := by
  intro hall
  obtain ⟨e₀, e, e', hcreate, hrun, hstep, hasked, haccepted⟩ := fifthBlock_accepted
  have hoffset := hall e₀ e e' _ hcreate hrun hstep haccepted
  rw [hasked] at hoffset
  exact absurd hoffset (by decide)

end Endpoint

end LibCoap
