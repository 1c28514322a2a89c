import LibCoap.Client.Transfer
import LibCoap.Client.Sending
import LibCoap.Packet.Building

/-! # Repeated requests

A client that waits for an answer sends its request again when nothing has come, or something that is
no answer to it. What has come is parsed into the packet that the request was built in. The options,
the code, the type and the payload of the request are built anew, but its token is whatever token the
packet holds, and its id is generated anew when it was 0. -/

namespace LibCoap

open Machine Wire

/-! ## Requests with the same options -/

/-- A GET request with the given options, whatever its id and its token. -/
structure Packet.IsGet (options : List PacketOption) (p : Packet) : Prop where
  version : p.headerInfo.version = coapVersion
  type : p.headerInfo.type = MessageType.confirmable.toField
  token : p.headerInfo.tokenLength.val ≤ tokenMaxLength
  code : p.code = MessageCode.get.toByte
  options : p.options = options
  payload : p.payload = []

/-- The token of a datagram is the one of its packet. -/
theorem Packet.wireToken_wireBytes {p : Packet}
    (htoken : p.headerInfo.tokenLength.val ≤ tokenMaxLength) :
    wireToken p.wireBytes = p.tokenBytes := by
  have hlength := length_tokenBytes htoken
  rw [wireToken, wireTokenLength_wireBytes]
  show (p.tokenBytes ++ (optionsBytes p.options 0 ++ payloadBytes payloadMarker p.payload)).take
    p.headerInfo.tokenLength.val = p.tokenBytes
  exact List.take_left' hlength

/-- **Two such requests are the same datagram** when they have the same id and the same token. -/
theorem Packet.IsGet.wireBytes_eq_iff {options : List PacketOption} {p q : Packet}
    (hp : p.IsGet options) (hq : q.IsGet options) :
    p.wireBytes = q.wireBytes ↔ p.messageId = q.messageId ∧ p.tokenBytes = q.tokenBytes := by
  constructor
  · intro h
    have hid := congrArg datagramId h
    rw [Endpoint.datagramId_wireBytes, Endpoint.datagramId_wireBytes] at hid
    have htoken := congrArg wireToken h
    rw [wireToken_wireBytes hp.token, wireToken_wireBytes hq.token] at htoken
    exact ⟨Option.some.inj hid, htoken⟩
  · rintro ⟨hid, htoken⟩
    have hlength := congrArg List.length htoken
    rw [length_tokenBytes hp.token, length_tokenBytes hq.token] at hlength
    have hhead : p.headerInfo.asByte = q.headerInfo.asByte := by
      rw [Header.asByte, Header.asByte, hp.version, hq.version, hp.type, hq.type, hlength]
    have hfixed : p.fixedBytes = q.fixedBytes := by
      rw [fixedBytes, fixedBytes, hhead, hp.code, hq.code, hid]
    rw [wireBytes, wireBytes, hfixed, htoken, hp.options, hq.options, hp.payload, hq.payload]

/-- What an accepted datagram leaves: its token, of at most eight bytes. -/
theorem Packet.token_received {p q : Packet} {r : Received}
    (h : p.parse r.buffer r.length = .ok (true, q)) :
    q.headerInfo.tokenLength.val ≤ tokenMaxLength ∧ q.tokenBytes = wireToken r.datagram := by
  obtain ⟨beyond, hbuffer⟩ := r.buffer_eq
  rw [hbuffer, r.length_eq] at h
  obtain ⟨hlength, htoken⟩ := token_of_parse h
  obtain ⟨payload, f, os, bs, hf, hbytes, -⟩ := marked_of_parse h
  rw [hbytes, (wireToken_bytes hf).1] at hlength
  exact ⟨Option.some.inj hlength ▸ hf.tokenMax, htoken⟩

namespace Endpoint

variable {std : StdSort} {e e' e₁ : Endpoint} {env : Env} {call : Call} {calls : List Call}

/-! ## While an answer is awaited -/

/-- **The outstanding request**: it stands in the packet, has been sent last, and would be built with
the same options again. -/
structure Outstanding (std : StdSort) (e : Endpoint) : Prop where
  path : e.destUri.LegalPath
  encoded : e.BlockEncoded
  get : e.pdu.IsGet (e.requestOptions std)
  mid : e.pdu.messageId = e.mid
  last : e.conn.sent.getLast? = some e.pdu.wireBytes
  fits : e.pdu.wireBytes.length ≤ bufferMaxSize

/-- What the next request is built from is a matter of the core. -/
theorem requestOptions_of_core (hdest : e'.destUri = e.destUri) (hport : e'.conn.port = e.conn.port)
    (hblock : e'.block2.restarted = e.block2.restarted) :
    e'.requestOptions std = e.requestOptions std := by
  rw [requestOptions, requestOptions, requestAdditions, requestAdditions, hdest, hport, hblock]

/-- The request of a send step, with a token within its bound. -/
theorem request_isGet (std : StdSort) (env : Env)
    (htoken : e.pdu.headerInfo.tokenLength.val ≤ tokenMaxLength) :
    (e.request std env).IsGet (e.requestOptions std) :=
  ⟨rfl, rfl, htoken, rfl, rfl, rfl⟩

/-- A send step that goes on to wait leaves its request outstanding. -/
theorem outstanding_of_send (hbuffer : e.conn.buffer.length = bufferMaxSize)
    (h : e.sendRequestHandler std env = .ok e') (hnext : e'.nextState = .receiveDataBlock) :
    e'.Outstanding std := by
  obtain ⟨hpath, houtcome⟩ := sendRequestHandler_outcome h
  cases houtcome with
  | noBlock _ _ next => simp [next] at hnext
  | longToken _ _ next => simp [next] at hnext
  | sent encoded token fits buffer core pdu =>
    have hdest : e'.destUri = e.destUri := congrArg Core.destUri core
    have hport : e'.conn.port = e.conn.port := congrArg Core.port core
    have hmid : e'.mid = e.nextMid env := congrArg Core.mid core
    have hsent : e'.conn.sent = e.conn.sent ++ [(e.request std env).wireBytes] :=
      congrArg Core.sent core
    -- the block state has been restarted, so restarting it again changes nothing
    have hblock : e'.block2.restarted = e.block2.restarted := by
      have hrestarted : e'.block2 = e.block2.restarted := congrArg Core.block2 core
      rw [hrestarted, Blockwise.restarted_restarted]
    refine ⟨hdest ▸ hpath, ?_, ?_, ?_, ?_, ?_⟩
    · rw [BlockEncoded, hblock]
      exact encoded
    · rw [requestOptions_of_core hdest hport hblock, pdu]
      exact request_isGet std env token
    · rw [pdu, hmid]
      rfl
    · rw [hsent, List.getLast?_concat, pdu]
    · rw [pdu, ← hbuffer]
      exact fits

/-- **The invariant**: while an answer is awaited, a request is outstanding. -/
structure Pending (std : StdSort) (e : Endpoint) : Prop where
  inv : e.Inv
  buffer : e.conn.buffer.length = bufferMaxSize
  outstanding : e.nextState = .receiveDataBlock → e.Outstanding std

/-- The outstanding request is a matter of the core and the packet. -/
theorem Outstanding.of_core (h : e.Outstanding std) (hcore : e'.core = e.core)
    (hpdu : e'.pdu = e.pdu) : e'.Outstanding std := by
  have hdest : e'.destUri = e.destUri := congrArg Core.destUri hcore
  have hport : e'.conn.port = e.conn.port := congrArg Core.port hcore
  have hsent : e'.conn.sent = e.conn.sent := congrArg Core.sent hcore
  have hmid : e'.mid = e.mid := congrArg Core.mid hcore
  have hblock : e'.block2 = e.block2 := congrArg Core.block2 hcore
  refine ⟨hdest ▸ h.path, ?_, ?_, ?_, ?_, ?_⟩
  · rw [BlockEncoded, hblock]
    exact h.encoded
  · rw [requestOptions_of_core hdest hport (by rw [hblock]), hpdu]
    exact h.get
  · rw [hpdu, hmid]
    exact h.mid
  · rw [hsent, hpdu]
    exact h.last
  · rw [hpdu]
    exact h.fits

/-- **Every call keeps the invariant.** -/
theorem Pending.step (h : e.Pending std) (hstep : e.step std call = .ok e') : e'.Pending std := by
  have heffect := step_effect h.inv hstep
  refine ⟨heffect.inv h.inv, step_buffer h.buffer hstep, fun hnext => ?_⟩
  cases heffect with
  | start _ _ next => simp [next] at hnext
  | stop _ _ next => simp [next] at hnext
  | setReceived core _ pdu next => exact (h.outstanding (next ▸ hnext)).of_core core pdu
  | rest _ _ _ next => simp [next] at hnext
  | requested turn =>
    rw [Endpoint.step, transactionStep, turn] at hstep
    exact outstanding_of_send h.buffer hstep hnext
  | unsent _ unsent => simp [unsent.next] at hnext
  | took _ _ took =>
    rw [took.nextState] at hnext
    split at hnext <;> cases hnext
  | declined _ _ declined =>
    rcases declined.next with ⟨hsend, -⟩ | ⟨herror, -⟩
    · simp [hsend] at hnext
    · simp [herror] at hnext

/-! ## The retry -/

/-- **The causes of a retry**: nothing has come, or what has come can be parsed and is no
ACKNOWLEDGEMENT or has another id. -/
def Retries (e : Endpoint) (env : Env) : Prop :=
  e.received = true → ∃ r q, env.receive = some r ∧
    e.pdu.parse r.buffer r.length = .ok (true, q) ∧
    (q.headerInfo.type ≠ MessageType.acknowledgement.toField ∨ e.mid ≠ q.messageId)

/-- What the packet holds behind a retry: the outstanding request, or the datagram that has come. -/
structure Retried (e : Endpoint) (env : Env) (e₁ : Endpoint) : Prop where
  core : { e₁.core with attempts := e.attempts } = e.core
  silent : e.received = false → e₁.pdu = e.pdu
  stray : e.received = true → ∃ r, env.receive = some r ∧
    e₁.pdu.headerInfo.tokenLength.val ≤ tokenMaxLength ∧
      e₁.pdu.tokenBytes = Packet.wireToken r.datagram

/-- **A retry** changes the packet at most. -/
theorem retried_of_step (hturn : e.nextState = .receiveDataBlock) (hcause : e.Retries env)
    (hstep : e.step std (.transactionStep env) = .ok e₁) : e.Retried env e₁ := by
  rw [step, transactionStep, hturn] at hstep
  simp only [receiveDataBlockHandler] at hstep
  cases hreceived : e.received with
  | false =>
    rw [hreceived, if_neg Bool.false_ne_true] at hstep
    cases hstep
    refine ⟨((retry_declined _).of_core rfl).core, fun _ => (retry_keeps _).2.2.1, fun h => ?_⟩
    rw [hreceived] at h
    cases h
  | true =>
    obtain ⟨r, q, hr, hparse, hstray⟩ := hcause hreceived
    rw [hreceived, if_pos rfl, hr] at hstep
    simp only [setTvSec] at hstep
    rw [hparse, ok_bind] at hstep
    simp only [Bool.not_true, Bool.false_eq_true, if_false, examine, if_pos hstray] at hstep
    cases hstep
    refine ⟨((retry_declined _).of_core rfl).core, fun h => ?_, fun _ => ⟨r, hr, ?_⟩⟩
    · rw [hreceived] at h
      cases h
    · rw [(retry_keeps _).2.2.1]
      exact Packet.token_received hparse

/-- The calls between two steps change neither the core nor the packet. -/
theorem run_between (hcalls : ∀ call ∈ calls, ∀ env, call ≠ .transactionStep env)
    (h : e.run std calls = .ok e') : e'.core = e.core ∧ e'.pdu = e.pdu := by
  induction calls generalizing e with
  | nil =>
    cases h
    exact ⟨rfl, rfl⟩
  | cons call calls ih =>
    obtain ⟨e₁, hstep, hrun⟩ := run_cons.mp h
    obtain ⟨hcall, hrest⟩ := List.forall_mem_cons.mp hcalls
    obtain ⟨hcore, hpdu⟩ := ih hrest hrun
    suffices hone : e₁.core = e.core ∧ e₁.pdu = e.pdu from
      ⟨hcore.trans hone.1, hpdu.trans hone.2⟩
    cases call with
    | transactionStep env => exact absurd rfl (hcall env)
    | start | stop | setReceived =>
      cases hstep
      exact ⟨rfl, rfl⟩

/-- **The request that is sent again**, against the outstanding one: the same options, the token that
the packet holds, and the id of the next request. -/
theorem resent_iff {e₂ : Endpoint} (h : e.Outstanding std)
    (hcore : { e₂.core with attempts := e.attempts } = e.core)
    (hbuffer : e₂.conn.buffer.length = bufferMaxSize)
    (htoken : e₂.pdu.headerInfo.tokenLength.val ≤ tokenMaxLength)
    (hsend : e₂.nextState = .sendRequest) :
    (∃ e₃, e₂.step std (.transactionStep env) = .ok e₃ ∧
        e₃.conn.sent = e.conn.sent ++ [e.pdu.wireBytes]) ↔
      e₂.pdu.tokenBytes = e.pdu.tokenBytes ∧ e₂.nextMid env = e.mid := by
  have hdest : e₂.destUri = e.destUri := congrArg Core.destUri hcore
  have hport : e₂.conn.port = e.conn.port := congrArg Core.port hcore
  have hsent : e₂.conn.sent = e.conn.sent := congrArg Core.sent hcore
  have hblock : e₂.block2 = e.block2 := congrArg Core.block2 hcore
  have hpath : e₂.destUri.LegalPath := hdest ▸ h.path
  have hencoded : e₂.BlockEncoded := by
    rw [BlockEncoded, hblock]
    exact h.encoded
  have hget : (e₂.request std env).IsGet (e.requestOptions std) := by
    rw [← requestOptions_of_core hdest hport (by rw [hblock])]
    exact request_isGet std env htoken
  have hstep : e₂.step std (.transactionStep env) = (e₂.prepared std env).transmit env := by
    rw [step, transactionStep, hsend]
    exact sendRequestHandler_eq hpath hencoded
  have hsame := hget.wireBytes_eq_iff h.get
  rw [h.mid] at hsame
  have hid : (e₂.request std env).messageId = e₂.nextMid env := rfl
  have hbytes : (e₂.request std env).tokenBytes = e₂.pdu.tokenBytes := rfl
  rw [hid, hbytes] at hsame
  rw [hstep, and_comm, ← hsame]
  constructor
  · rintro ⟨e₃, hreturned, hagain⟩
    obtain ⟨-, -, houtcome⟩ := transmit_cases (e := e₂.prepared std env) rfl hreturned
    rcases houtcome with ⟨-, -, hcore₃, -⟩ | ⟨hlong, -⟩
    · have hlast : e₃.conn.sent = e₂.conn.sent ++ [(e₂.request std env).wireBytes] :=
        congrArg Core.sent hcore₃
      rw [hagain, hsent, List.append_cancel_left_eq, List.cons.injEq] at hlast
      exact hlast.1.symm
    · exact absurd htoken (Nat.not_le.mpr hlong)
  · intro heq
    have hroom : (e₂.request std env).wireBytes.length ≤ e₂.conn.buffer.length := by
      rw [heq, hbuffer]
      exact h.fits
    obtain ⟨e₃, hreturned, hagain⟩ : ∃ e₃, (e₂.prepared std env).transmit env = .ok e₃ ∧
        e₃.conn.sent = e₂.conn.sent ++ [(e₂.request std env).wireBytes] :=
      transmit_sends htoken (request_tight std e₂ env) hroom
    exact ⟨e₃, hreturned, by rw [hagain, heq, hsent]⟩

/-- A new client has no request outstanding. -/
theorem create_pending {path buffer : List UInt8} {port : UInt16} {pdu : Packet} {tvSec : Int}
    {error : ErrorCode} (hcreate : create path (.open port buffer) pdu tvSec error = .ok e)
    (hbuffer : buffer.length = bufferMaxSize) : e.Pending std := by
  obtain ⟨hinv, hnext, -, -⟩ := create_inv hcreate
  have hrun : e.run std [] = .ok e := rfl
  exact ⟨hinv, run_buffer hcreate hbuffer hrun, fun hwaits => by simp [hnext] at hwaits⟩

/-- The id of a request is kept unless it is 0 and another one is generated. -/
theorem nextMid_eq_iff : e.nextMid env = e.mid ↔ (e.mid = 0 → env.messageId = 0) := by
  rw [nextMid]
  by_cases hzero : e.mid = 0
  · rw [if_pos hzero, hzero]
    exact ⟨fun h _ => h, fun h => h rfl⟩
  · rw [if_neg hzero]
    exact ⟨fun _ h => absurd h hzero, fun _ => rfl⟩

/-- **When a retransmission repeats the request.** In every state in which a client waits, for either
cause of a retry: the next send step sends the very request that was sent before exactly when what has
come carries the token of that request, and the id of that request is not 0 or 0 is generated again. -/
theorem retransmission_repeats_iff {path buffer : List UInt8} {port : UInt16} {pdu : Packet}
    {tvSec : Int} {error : ErrorCode} {e₀ e₂ : Endpoint} {between : List Call} (env' : Env)
    (hcreate : create path (.open port buffer) pdu tvSec error = .ok e₀)
    (hbuffer : buffer.length = bufferMaxSize) (hrun : e₀.run std calls = .ok e)
    (hturn : e.nextState = .receiveDataBlock) (hcause : e.Retries env)
    (hstep : e.step std (.transactionStep env) = .ok e₁)
    (hbetween : ∀ call ∈ between, ∀ env, call ≠ .transactionStep env)
    (hlater : e₁.run std between = .ok e₂) (hsend : e₂.nextState = .sendRequest) :
    ∃ d, e.conn.sent.getLast? = some d ∧
      ((∃ e₃, e₂.step std (.transactionStep env') = .ok e₃ ∧
          e₃.conn.sent = e.conn.sent ++ [d]) ↔
        (e.received = true → ∀ r, env.receive = some r →
          Packet.wireToken r.datagram = Packet.wireToken d) ∧
        (e.mid = 0 → env'.messageId = 0)) := by
  have hkeeps : ∀ (e : Endpoint) (call : Call) (e' : Endpoint), e.Pending std →
      e.step std call = .ok e' → e'.Pending std := fun _ _ _ h => h.step
  have hpending : e.Pending std := run_invariant hkeeps (create_pending hcreate hbuffer) hrun
  have hpending₂ : e₂.Pending std := run_invariant hkeeps (hpending.step hstep) hlater
  have houtstanding := hpending.outstanding hturn
  have hretried := retried_of_step hturn hcause hstep
  obtain ⟨hcore, hpdu⟩ := run_between hbetween hlater
  have hcore₂ : { e₂.core with attempts := e.attempts } = e.core := by
    rw [hcore]
    exact hretried.core
  have hmid : e₂.mid = e.mid := congrArg Core.mid hcore₂
  have hid : e₂.nextMid env' = e.mid ↔ (e.mid = 0 → env'.messageId = 0) := by
    rw [← hmid]
    exact nextMid_eq_iff
  have htoken := Packet.wireToken_wireBytes houtstanding.get.token
  refine ⟨e.pdu.wireBytes, houtstanding.last, ?_⟩
  rw [htoken]
  cases hreceived : e.received with
  | false =>
    have hsame := hpdu.trans (hretried.silent hreceived)
    have hbound : e₂.pdu.headerInfo.tokenLength.val ≤ tokenMaxLength := by
      rw [hsame]
      exact houtstanding.get.token
    rw [resent_iff houtstanding hcore₂ hpending₂.buffer hbound hsend, hid, hsame]
    exact and_congr_left fun _ => ⟨fun _ h => (Bool.false_ne_true h).elim, fun _ => rfl⟩
  | true =>
    obtain ⟨r, hr, hbound, hstray⟩ := hretried.stray hreceived
    rw [← hpdu] at hbound hstray
    rw [resent_iff houtstanding hcore₂ hpending₂.buffer hbound hsend, hid, hstray]
    refine and_congr_left fun _ => ⟨fun h _ r' hr' => ?_, fun h => h rfl r hr⟩
    obtain rfl := Option.some.inj (hr.symm.trans hr')
    exact h

/-- A datagram that is no answer, with no token or with one. -/
def strayDatagram (tokened : Bool) : Received :=
  if tokened then .cleared [0x41, 0x45, 0x00, 0x02, 0xAA, 0x00, 0x2A] (by simp [bufferMaxSize])
  else .cleared [0x40, 0x45, 0x00, 0x02, 0x00, 0x2A] (by simp [bufferMaxSize])

/-- The sample client has sent its request, and a datagram that is no answer is delivered to it. -/
theorem stray_runs (tokened : Bool) :
    ∃ e₀ e e₁, sampleClient = .ok e₀ ∧
      e₀.run .insertion [.start, .transactionStep sampleEnv, .setReceived true] = .ok e ∧
      e.Retries ⟨0, true, some (strayDatagram tokened)⟩ ∧
      e.step .insertion (.transactionStep ⟨0, true, some (strayDatagram tokened)⟩) = .ok e₁ ∧
      e.nextState = .receiveDataBlock ∧ e₁.nextState = .sendRequest ∧ e.mid = 1 ∧
      e.conn.sent = [sampleRequest] := by
  have hrun : (sampleClient >>= fun e₀ =>
      e₀.run .insertion [.start, .transactionStep sampleEnv, .setReceived true] >>= fun e =>
        e.pdu.parse (strayDatagram tokened).buffer (strayDatagram tokened).length >>= fun parsed =>
          (e.step .insertion (.transactionStep ⟨0, true, some (strayDatagram tokened)⟩)).map
            fun e₁ => decide ((parsed.1 = true ∧ e.mid ≠ parsed.2.messageId) ∧
              e.nextState = .receiveDataBlock ∧ e₁.nextState = .sendRequest ∧ e.mid = 1 ∧
              e.conn.sent = [sampleRequest])) = .ok true := by
    cases tokened with
    | false => decide +kernel
    | true => decide +kernel
  obtain ⟨e₀, hcreate, hrun⟩ := bind_eq_ok.mp hrun
  obtain ⟨e, hcalls, hrun⟩ := bind_eq_ok.mp hrun
  obtain ⟨⟨verdict, q⟩, hparse, hrun⟩ := bind_eq_ok.mp hrun
  obtain ⟨e₁, hstep, hseen⟩ := map_eq_ok hrun
  obtain ⟨⟨rfl, hid⟩, hfacts⟩ := of_decide_eq_true hseen
  exact ⟨e₀, e, e₁, hcreate, hcalls, fun _ => ⟨_, q, rfl, hparse, .inr hid⟩, hstep, hfacts⟩

/-- Behind a datagram without a token, the sample client repeats its request. -/
theorem retransmission_repeats_iff_sample :
    ∃ e e₁ e₃ : Endpoint,
      e.step .insertion (.transactionStep ⟨0, true, some (strayDatagram false)⟩) = .ok e₁ ∧
      e₁.step .insertion (.transactionStep sampleEnv) = .ok e₃ ∧
      e.conn.sent = [sampleRequest] ∧ e₃.conn.sent = [sampleRequest, sampleRequest] := by
  obtain ⟨e₀, e, e₁, hcreate, hrun, hcause, hstep, hturn, hsend, hmid, hsent⟩ := stray_runs false
  have hnone : ∀ call ∈ ([] : List Call), ∀ env, call ≠ .transactionStep env := nofun
  obtain ⟨d, hlast, hiff⟩ := retransmission_repeats_iff sampleEnv hcreate (by simp) hrun hturn
    hcause hstep hnone rfl hsend
  rw [hsent] at hlast hiff
  obtain rfl : sampleRequest = d := Option.some.inj hlast
  obtain ⟨e₃, hagain, hsent₃⟩ := hiff.mpr ⟨fun _ r hr => by
      obtain rfl := Option.some.inj hr
      decide,
    fun hzero => by rw [hmid] at hzero; exact absurd hzero (by decide)⟩
  exact ⟨e, e₁, e₃, hstep, hagain, hsent, hsent₃⟩

/-- **A datagram with a token changes the request**: its token goes out with the request that is sent
again. -/
theorem not_repeated_behind_token :
    ¬∀ e₀ e e₁ d, sampleClient = .ok e₀ →
      e₀.run .insertion [.start, .transactionStep sampleEnv, .setReceived true] = .ok e →
      e.nextState = .receiveDataBlock → e.Retries ⟨0, true, some (strayDatagram true)⟩ →
      e.step .insertion (.transactionStep ⟨0, true, some (strayDatagram true)⟩) = .ok e₁ →
      e₁.nextState = .sendRequest → e.conn.sent.getLast? = some d →
      ∃ e₃, e₁.step .insertion (.transactionStep sampleEnv) = .ok e₃ ∧
        e₃.conn.sent = e.conn.sent ++ [d] := by
  intro hall
  obtain ⟨e₀, e, e₁, hcreate, hrun, hcause, hstep, hturn, hsend, -, hsent⟩ := stray_runs true
  obtain ⟨e₃, hagain, hsent₃⟩ := hall e₀ e e₁ sampleRequest hcreate hrun hturn hcause hstep hsend
    (by rw [hsent]; rfl)
  have hdiffers : (sampleClient >>= fun e₀ =>
      e₀.run .insertion [.start, .transactionStep sampleEnv, .setReceived true] >>= fun e =>
        e.step .insertion (.transactionStep ⟨0, true, some (strayDatagram true)⟩) >>= fun e₁ =>
          (e₁.step .insertion (.transactionStep sampleEnv)).map fun e₃ => e₃.conn.sent) =
      .ok [sampleRequest, 0x41 :: 0x01 :: 0x00 :: 0x01 :: 0xAA :: sampleRequest.drop 4] := by
    decide +kernel
  rw [hcreate, ok_bind, hrun, ok_bind, hstep, ok_bind, hagain] at hdiffers
  have hsame : e₃.conn.sent = [sampleRequest, sampleRequest] := by
    rw [hsent₃, hsent]
    rfl
  have hother : e₃.conn.sent = _ := Except.ok.inj hdiffers
  rw [hsame] at hother
  exact absurd hother (by decide)

end Endpoint

end LibCoap
