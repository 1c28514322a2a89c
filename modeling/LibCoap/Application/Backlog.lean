import LibCoap.Application.Liveness

/-! # A transfer with a backlog

The endpoint takes every datagram that can be parsed and does not answer its request for a lost answer: it
sends the request again. Each such *stray* datagram costs one attempt, and since no answer is lost, one more
answer is under way. What is under way, in the network or at the socket, is a queue: the stray answers to the
last request, and behind them the answers to the requests for the block that is asked for
(`Program.Trailing`). The queue is one longer than the number of duplicates and of answers that came late,
until the fifth attempt for one block ends the transfer. -/

namespace LibCoap

open Machine Wire

/-! ## Stray datagrams -/

/-- A datagram that can be parsed and does not answer the request with the id `mid`. -/
def Stray (mid : UInt16) (bytes : List UInt8) : Prop :=
  bytes.length ≤ bufferMaxSize ∧ ∃ (f : Frame) (os : List Item) (bs payload : List UInt8),
    bytes = f.bytes ∧ f.Valid ∧ f.body = bs ++ payloadMarker :: payload ∧
    Sequence sourceDialect os bs ∧
    (f.type ≠ MessageType.acknowledgement.toField.val ∨ f.id ≠ mid.toNat)

/-- An answer to the request for the block at `offset` under the id `mid`, whatever size it asks for. -/
def AnswersAt (least : Nat) (resource : List UInt8) (mid : UInt16) (offset : Nat) (bytes : List UInt8) :
    Prop :=
  ∃ size, Answers least resource mid.toNat offset size bytes

/-- **The answer to another request** is a stray datagram. -/
theorem AnswersAt.stray {least offset : Nat} {resource bytes : List UInt8} {mid mid' : UInt16}
    (h : AnswersAt least resource mid offset bytes) (hinside : offset < resource.length)
    (hother : mid ≠ mid') : Stray mid' bytes := by
  obtain ⟨size, hlength, f, os, bs, value, hbytes, hanswer, -, -⟩ := h
  refine ⟨hlength, f, os, bs, _, hbytes, hanswer.fixed, hanswer.body_marker hinside, hanswer.options,
    .inr fun hid => hother ?_⟩
  apply UInt16.toNat_inj.mp
  rw [← hanswer.sameId, hid]

/-- The id of a request for a block. -/
theorem RequestsBlock.datagramId {limit offset size : Nat} {d : List UInt8} {mid : UInt16}
    (h : RequestsBlock limit d mid.toNat offset size) : datagramId d = some mid := by
  obtain ⟨m, value, ⟨f, os, bs, -, rfl, -, -, -, hm⟩, hid, -⟩ := h
  show some (f.idLow.toUInt16 ||| (f.idHigh.toUInt16 <<< 8)) = some mid
  congr 1
  apply UInt16.toNat_inj.mp
  rw [toNat_join, ← hid, hm]
  rfl

namespace Endpoint

variable {std : StdSort} {least : Nat} {resource : List UInt8} {e : Endpoint} {env : Env}

/-- **A stray datagram** is one more attempt, unless it is the fifth in a row. -/
theorem Asking.passes (h : e.Asking least resource) (hturn : e.nextState = .receiveDataBlock)
    (hreceived : e.received = true) {r : Received} (hr : env.receive = some r)
    (hstray : Stray e.mid r.datagram) :
    ∃ e', e.transactionStep std env = .ok e' ∧ e'.received = false ∧ e'.downloaded = e.downloaded ∧
      e'.conn.sent = e.conn.sent ∧
      ((e.attempts < 4 ∧ e'.Asking least resource ∧ e'.nextState = .sendRequest ∧
          e'.attempts = e.attempts + 1 ∧ e'.askedOffset = e.askedOffset ∧ e'.mid = e.mid) ∨
        (e.attempts = 4 ∧ e'.nextState = .error ∧ e'.error = .coapTimeout)) := by
  obtain ⟨-, f, os, bs, payload, hbytes, hf, hbody, hos, hother⟩ := hstray
  obtain ⟨beyond, hbuffer⟩ := r.buffer_eq
  have hparse := Packet.parse_marker hf hbody hos e.pdu beyond
  rw [← hbytes, ← hbuffer, ← r.length_eq] at hparse
  obtain ⟨q, hparse, hunknown, htoken⟩ : ∃ q, e.pdu.parse r.buffer r.length = .ok (true, q) ∧
      (q.headerInfo.type ≠ MessageType.acknowledgement.toField ∨ e.mid ≠ q.messageId) ∧
      q.headerInfo.tokenLength.val ≤ tokenMaxLength := by
    refine ⟨_, hparse, hother.imp (fun htype heq => htype ?_) (fun hid heq => hid ?_),
      (Packet.tokenLength_ofByte f).trans_le hf.tokenMax⟩
    · exact congrArg Fin.val heq
    · rw [heq, Frame.id, ← toNat_join]
      rfl
  have hreturns : e.transactionStep std env = .ok ({ e with
      state := .receiveDataBlock
      received := false
      conn := { e.conn with buffer := r.buffer, length := r.length }
      tvSec := 0
      pdu := q } : Endpoint).retry := by
    rw [transactionStep, hturn]
    simp only [receiveDataBlockHandler, hreceived, if_true, hr, setTvSec]
    show (e.pdu.parse r.buffer r.length >>= _) = _
    rw [hparse, ok_bind]
    simp only [Bool.not_true, Bool.false_eq_true, if_false, examine]
    rw [if_pos hunknown]
    rfl
  have heffect : e.Effect std (.transactionStep env) _ := step_effect h.inv hreturns
  have hinv := heffect.inv h.inv
  have hattempts : e.attempts ≤ 4 := h.inv.attempts
  refine ⟨_, hreturns, ?_⟩
  unfold retry at hinv ⊢
  by_cases hlast : e.attempts + 1 > receiveMaxAttempts
  · rw [if_pos hlast]
    rw [receiveMaxAttempts] at hlast
    exact ⟨rfl, rfl, rfl, .inr ⟨by omega, rfl, rfl⟩⟩
  · rw [if_neg hlast] at hinv ⊢
    rw [receiveMaxAttempts] at hlast
    exact ⟨rfl, rfl, rfl, .inl ⟨by omega, h.keep hinv rfl (.inl rfl) rfl htoken r.size_eq, rfl, rfl, rfl,
      rfl⟩⟩

end Endpoint

namespace Program

variable {std : StdSort} {least limit j k : Nat} {resource : List UInt8}
  {server : List UInt8 → List UInt8} {p q w : Program} {s : Surroundings} {queue : List (List UInt8)}

/-! ## A turn with a stray datagram -/

/-- What arrives waits at the socket. -/
theorem run_arrivals (arrivals : List Arrival) (p : Program) :
    p.run std (arrivals.map Event.arrive) = .ok { p with socket := p.socket ++ arrivals } := by
  induction arrivals generalizing p with
  | nil => simp [run]
  | cons a arrivals ih =>
    rw [List.map_cons, run, List.foldlM_cons]
    show run std { p with socket := p.socket ++ [a] } (arrivals.map Event.arrive) = _
    rw [ih, List.append_assoc]
    rfl

/-- What a turn leaves in which a stray datagram is received. -/
structure Passed (least : Nat) (resource : List UInt8) (p q : Program) : Prop where
  goes : q.Goes
  file : q.ep.downloaded = p.ep.downloaded
  silent : q.ep.received = false
  sent : q.ep.conn.sent = p.ep.conn.sent
  outcome : (p.ep.attempts < 4 ∧ q.ep.Asking least resource ∧ q.ep.nextState = .sendRequest ∧
      q.ep.attempts = p.ep.attempts + 1 ∧ q.ep.askedOffset = p.ep.askedOffset ∧ q.ep.mid = p.ep.mid) ∨
    (p.ep.attempts = 4 ∧ q.ep.nextState = .error ∧ q.ep.error = .coapTimeout)

/-- **A turn in which a stray datagram is received**, whatever waits behind it. -/
theorem Goes.passes {bytes : List UInt8} {socket : List Arrival} (h : p.Goes)
    (hasking : p.ep.Asking least resource) (hnext : p.ep.nextState = .receiveDataBlock)
    (hsocket : p.socket = .datagram bytes :: socket) (hstray : Stray p.ep.mid bytes)
    (hselect : s.failed = none) :
    ∃ q, p.turn std s = .ok q ∧ q.socket = socket ∧ p.Passed least resource q := by
  obtain ⟨sec, usec, hwoken⟩ := p.woken_eq s
  have hturn : (p.woken s).ep.nextState = .receiveDataBlock := (p.woken_nextState s).trans hnext
  have hreceived : (p.woken s).ep.received = true := by
    rw [woken_received, hsocket]
    exact Bool.or_true _
  have hreceives : (p.woken s).receives = true := by
    rw [receives, decide_eq_true_eq]
    exact ⟨hturn, hreceived⟩
  have hsame : (p.woken s).ep.mid = p.ep.mid ∧ (p.woken s).ep.askedOffset = p.ep.askedOffset ∧
      (p.woken s).ep.conn.sent = p.ep.conn.sent ∧ (p.woken s).ep.attempts = p.ep.attempts ∧
      (p.woken s).ep.downloaded = p.ep.downloaded := by
    rw [hwoken]
    exact ⟨rfl, rfl, rfl, rfl, rfl⟩
  obtain ⟨hmid, hoffset, hsent, hattempts, hfile⟩ := hsame
  have henv : (p.env s).receive = Arrival.receive (.datagram bytes) := by
    rw [env, hsocket]
    rfl
  have hdatagram : (Received.cleared (bytes.take bufferMaxSize) (List.length_take_le _ _)).datagram =
      bytes := by
    rw [Received.datagram_cleared, List.take_of_length_le hstray.1]
  rw [← hmid, ← hdatagram] at hstray
  obtain ⟨ep, hstep, hdown, hfile', hsent', houtcome⟩ :=
    (asking_woken hasking s).passes hturn hreceived henv hstray
  have hstate := (Endpoint.transactionStep_state hstep).trans hturn
  obtain ⟨q, hq, hgoes, rfl, hrest⟩ := h.turn_receives hselect hsocket hreceives hstep (.inr hstate)
  rw [hattempts, hoffset, hmid] at houtcome
  exact ⟨q, hq, hrest, hgoes, hfile'.trans hfile, hdown, hsent'.trans hsent, houtcome⟩

/-! ## The queue -/

/-- **What is under way** to a client: a number of stray datagrams, and behind them a number of answers to the
requests for its block. -/
def Queue (least : Nat) (resource : List UInt8) (mid : UInt16) (offset : Nat) (before behind : Nat)
    (queue : List (List UInt8)) : Prop :=
  ∃ strays answers : List (List UInt8), queue = strays ++ answers ∧ strays.length = before ∧
    answers.length = behind ∧ (∀ d ∈ strays, Stray mid d) ∧
    ∀ d ∈ answers, AnswersAt least resource mid offset d

/-- One more answer stands at the end. -/
theorem Queue.concat {mid : UInt16} {offset before behind : Nat} {d : List UInt8}
    (h : Queue least resource mid offset before behind queue) (hd : AnswersAt least resource mid offset d) :
    Queue least resource mid offset before (behind + 1) (queue ++ [d]) := by
  obtain ⟨strays, answers, rfl, hstrays, rfl, hstray, hanswer⟩ := h
  refine ⟨strays, answers ++ [d], List.append_assoc _ _ _, hstrays, List.length_append, hstray, ?_⟩
  exact List.forall_mem_append.mpr ⟨hanswer, List.forall_mem_singleton.mpr hd⟩

/-- **A program that trails by `k`**, about to ask for its block for the `j + 1`st time. -/
structure Trailing (least : Nat) (resource : List UInt8) (k j : Nat) (queue : List (List UInt8))
    (p : Program) : Prop where
  goes : p.Goes
  silent : p.ep.received = false
  asking : p.ep.Asking least resource
  turn : p.ep.nextState = .sendRequest
  attempts : p.ep.attempts = j
  queue : ∃ before, before + j = k ∧ Queue least resource p.ep.mid p.ep.askedOffset before j queue

/-- **Inside a round**: the request has been sent, and its answer stands at the end of the queue. -/
structure Expecting (least : Nat) (resource : List UInt8) (k j : Nat) (queue : List (List UInt8))
    (w : Program) : Prop where
  goes : w.Goes
  ready : w.ep.received = true → w.socket ≠ []
  asking : w.ep.Asking least resource
  turn : w.ep.nextState = .receiveDataBlock
  attempts : w.ep.attempts = j
  queue : ∃ before, before + j = k ∧
    Queue least resource w.ep.mid w.ep.askedOffset before (j + 1) queue

/-- **How a round ends** in which something has been received, when `queue` is left. -/
inductive Trailed (least : Nat) (resource : List UInt8) (k j : Nat) (queue : List (List UInt8))
    (w q : Program) : Prop where
  /-- It has been a stray datagram, and the block is asked for again. -/
  | again (stray : j < k) (next : q.Trailing least resource k (j + 1) queue)
      (offset : q.ep.askedOffset = w.ep.askedOffset) (mid : q.ep.mid = w.ep.mid)
  /-- It has been the fifth one. -/
  | gaveUp (stray : j < k) (last : j = 4)
      (ends : q.Closing .error (resource.take w.ep.askedOffset) .coapTimeout)
  /-- The block has been stored, and there are more. -/
  | stored (answer : j = k) (next : q.Trailing least resource k 0 queue)
      (gained : w.ep.askedOffset + least ≤ q.ep.askedOffset) (mid : q.ep.mid = w.ep.mid + 1)
  /-- It has been the last block. -/
  | done {code : ErrorCode} (answer : j = k) (ends : q.Closing .complete resource code)
      (mid : q.ep.mid = w.ep.mid)

/-- Only the id and the place of the block that is asked for matter. -/
theorem Trailed.congr (h : Trailed least resource k j queue w q)
    (hoffset : p.ep.askedOffset = w.ep.askedOffset) (hmid : p.ep.mid = w.ep.mid) :
    Trailed least resource k j queue p q := by
  cases h with
  | again stray next offset mid => exact .again stray next (offset.trans hoffset.symm) (mid.trans hmid.symm)
  | gaveUp stray last ends => exact .gaveUp stray last (hoffset ▸ ends)
  | stored answer next gained mid => exact .stored answer next (hoffset ▸ gained) (hmid ▸ mid)
  | done answer ends mid => exact .done answer ends (mid.trans hmid.symm)

/-- The answers to the requests for a block are stray datagrams once it is stored. -/
theorem queue_of_stored {answers : List (List UInt8)} {mid : UInt16} {offset offset' : Nat}
    (hinside : offset < resource.length)
    (hanswers : ∀ d ∈ answers, AnswersAt least resource mid offset d) :
    Queue least resource (mid + 1) offset' answers.length 0 answers := by
  refine ⟨answers, [], (List.append_nil _).symm, rfl, rfl, fun d hd => ?_,
    fun d hd => absurd hd List.not_mem_nil⟩
  refine (hanswers d hd).stray hinside fun hsame => ?_
  have hlt := mid.toNat_lt
  have hwrap := congrArg UInt16.toNat hsame
  rw [UInt16.toNat_add, show (1 : UInt16).toNat = 1 from rfl] at hwrap
  omega

/-- **What has waited longest is received.** -/
theorem Expecting.receives {d : List UInt8} {socket : List Arrival}
    (h : Expecting least resource k j (d :: queue) w) (hsocket : w.socket = .datagram d :: socket)
    (hselect : s.failed = none) :
    ∃ q, w.turn std s = .ok q ∧ q.socket = socket ∧ q.ep.conn.sent = w.ep.conn.sent ∧
      Trailed least resource k j queue w q := by
  obtain ⟨before, hbefore, strays, answers, hqueue, rfl, hanswers, hstray, hanswer⟩ := h.queue
  cases strays with
  | cons d' strays =>
    obtain ⟨rfl, rfl⟩ := List.cons.inj hqueue
    rw [List.length_cons] at hbefore
    obtain ⟨hfirst, hothers⟩ := List.forall_mem_cons.mp hstray
    obtain ⟨q, hq, hrest, hpassed⟩ := h.goes.passes h.asking h.turn hsocket hfirst hselect
    refine ⟨q, hq, hrest, hpassed.sent, ?_⟩
    rcases hpassed.outcome with ⟨-, hasking, hnext, hattempts, hoffset, hmid⟩ | ⟨hlast, hnext, hcode⟩
    · refine .again (by omega) ⟨hpassed.goes, hpassed.silent, hasking, hnext,
        hattempts.trans (by rw [h.attempts]), strays.length, by omega, strays, answers, rfl, rfl, hanswers,
        ?_, ?_⟩ hoffset hmid
      · rw [hmid]
        exact hothers
      · rw [hmid, hoffset]
        exact hanswer
    · rw [h.attempts] at hlast
      refine .gaveUp (by omega) hlast ⟨?_, hcode, .inr ⟨hpassed.goes, hnext⟩⟩
      rw [hpassed.file, h.asking.stored]
  | nil =>
    rw [List.length_nil, Nat.zero_add] at hbefore
    rw [List.nil_append] at hqueue
    subst hqueue
    obtain ⟨⟨size, hfirst⟩, hothers⟩ := List.forall_mem_cons.mp hanswer
    obtain ⟨q, hq, hrest, hstored⟩ := h.goes.takes h.asking h.turn hsocket hfirst hselect
    refine ⟨q, hq, hrest, hstored.sent, ?_⟩
    have hlength : queue.length = k := (Nat.succ.inj hanswers).trans hbefore
    rcases hstored.outcome with ⟨hasking, hnext, hattempts, hoffset, hmid⟩ | ⟨hnext, hdone, hmid⟩
    · refine .stored hbefore ⟨hstored.goes, hstored.silent, hasking, hnext, hattempts, k, rfl, ?_⟩ hoffset
        hmid
      rw [hmid, ← hlength]
      exact queue_of_stored h.asking.inside hothers
    · exact .done hbefore ⟨hdone, rfl, .inr ⟨hstored.goes, hnext⟩⟩ hmid

/-- **Nothing has come**: the answer is late, and the program trails by one more. -/
theorem Expecting.misses (h : Expecting least resource k j queue w) (hsocket : w.socket = [])
    (hselect : s.failed = none) :
    ∃ q, w.turn std s = .ok q ∧ q.socket = [] ∧
      ((j < 4 ∧ q.Trailing least resource (k + 1) (j + 1) queue ∧
          q.ep.askedOffset = w.ep.askedOffset ∧ q.ep.mid = w.ep.mid) ∨
        (j = 4 ∧ q.Closing .error (resource.take w.ep.askedOffset) .coapTimeout)) := by
  have hsilent : w.ep.received = false := Bool.of_not_eq_true fun hready => h.ready hready hsocket
  obtain ⟨q, hq, hempty, hcases⟩ := h.goes.misses hsocket hsilent h.asking h.turn hselect
  rw [h.attempts, h.asking.stored] at hcases
  refine ⟨q, hq, hempty, hcases.imp_left fun ⟨hmore, hnext, hoffset, hmid⟩ => ?_⟩
  obtain ⟨before, hbefore, hqueue⟩ := h.queue
  refine ⟨hmore, ⟨hnext.goes, hnext.silent, hnext.asking, hnext.turn, hnext.attempts, before, by omega, ?_⟩,
    hoffset, hmid⟩
  rw [hmid, hoffset]
  exact hqueue

/-- Datagrams arrive. -/
theorem Expecting.arrives (h : Expecting least resource k j queue w) (arrivals : List Arrival) :
    Expecting least resource k j queue { w with socket := w.socket ++ arrivals } := by
  refine ⟨⟨h.goes.stdin, h.goes.quit, h.goes.free⟩, fun hready hnone => ?_, h.asking, h.turn, h.attempts,
    h.queue⟩
  exact h.ready hready (List.append_eq_nil_iff.mp hnone).1

/-- What a program trails by does not depend on what of it has arrived. -/
theorem Trailing.arrives (h : p.Trailing least resource k j queue) (arrivals : List Arrival) :
    ({ p with socket := p.socket ++ arrivals } : Program).Trailing least resource k j queue :=
  ⟨⟨h.goes.stdin, h.goes.quit, h.goes.free⟩, h.silent, h.asking, h.turn, h.attempts, h.queue⟩

/-- The id of the next request. -/
def nextId (p : Program) (s : Surroundings) : UInt16 := if p.ep.mid = 0 then s.messageId else p.ep.mid

/-- **One more request is sent**, and answered. -/
theorem Trailing.asks (h : p.Trailing least resource k j queue)
    (hfit : Endpoint.NumbersFit limit least resource) (hleast : least ≤ blockMaxSize)
    (hserver : Serves limit least resource server) (hid : p.ep.mid = 0 → queue = [])
    (hselect : s.failed = none) (hok : s.sendOk = true) :
    ∃ w d, p.turn std s = .ok w ∧ w.ep.conn.sent = p.ep.conn.sent ++ [d] ∧
      datagramId d = some w.ep.mid ∧ w.socket = p.socket ∧ w.ep.mid = p.nextId s ∧
      w.ep.askedOffset = p.ep.askedOffset ∧ Expecting least resource k j (queue ++ [server d]) w := by
  obtain ⟨w, hw, hasked⟩ := h.goes.sends h.asking h.turn hfit hleast hselect hok
  obtain ⟨d, size, hsent, hrequest, hsize⟩ := hasked.request
  have hnew : AnswersAt least resource w.ep.mid w.ep.askedOffset (server d) :=
    ⟨size, hserver hrequest hasked.asking.inside hsize⟩
  obtain ⟨before, hbefore, hold⟩ := h.queue
  have hqueue : Queue least resource w.ep.mid w.ep.askedOffset before j queue := by
    rw [hasked.offset]
    by_cases hzero : p.ep.mid = 0
    · -- nothing is under way that knows of the id
      obtain ⟨strays, answers, hnone, hstrays, hanswers, -, -⟩ := hold
      rw [hid hzero] at hnone ⊢
      obtain ⟨rfl, rfl⟩ := List.append_eq_nil_iff.mp hnone.symm
      exact ⟨[], [], rfl, hstrays, hanswers, fun d hd => absurd hd List.not_mem_nil,
        fun d hd => absurd hd List.not_mem_nil⟩
    · have hmid : w.ep.mid = p.ep.mid := by rw [hasked.mid, if_neg hzero]
      rw [hmid]
      exact hold
  refine ⟨w, d, hw, hsent, hrequest.request.datagramId, hasked.socket, hasked.mid, hasked.offset,
    hasked.goes, fun hready => ?_, hasked.asking, hasked.turn, hasked.attempts.trans h.attempts,
    before, hbefore, hqueue.concat hnew⟩
  rw [hasked.received, h.silent, Bool.false_or, Bool.not_eq_true', List.isEmpty_eq_false_iff] at hready
  rw [hasked.socket]
  exact hready

end Program

end LibCoap
