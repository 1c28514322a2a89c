import LibCoap.Blockwise.Header
import LibCoap.Client.Endpoint
import LibCoap.Packet.History
import LibCoap.Packet.RoundTrip
import LibCoap.Packet.SerializeRoom

/-! # What one call of the client does

One lemma for each handler says everything later proofs need of it, so that these never unfold the
handlers. Which datagrams are accepted is stated without the endpoint's own packet
(`Endpoint.accepted`): the datagram is parsed in a fresh packet and compared with the request that has
been sent last. That this is what the handler does rests on the invariant that no payload is left in
the packet and that `_mid` is the id of that request (`Endpoint.Waiting`). -/

namespace LibCoap

open Machine Wire

/-- The message id of a datagram. -/
def datagramId (b : List UInt8) : Option UInt16 :=
  match b with
  | _ :: _ :: high :: low :: _ => some (low.toUInt16 ||| (high.toUInt16 <<< 8))
  | _ => none

/-- What an accepted datagram says: its payload and the block that its Block2 option denotes. -/
structure Answer where
  payload : List UInt8
  number : UInt32
  size : UInt16
  more : Bool
  deriving DecidableEq, Repr

/-- The buffer is the datagram and what stands behind it. -/
theorem Received.buffer_eq (r : Received) : ∃ beyond, r.buffer = r.datagram ++ beyond :=
  ⟨r.buffer.drop r.length, (List.take_append_drop r.length r.buffer).symm⟩

/-- The length of the datagram. -/
theorem Received.length_eq (r : Received) : r.length = r.datagram.length := by
  have hsize := r.size_eq
  have hfits := r.fits
  rw [Received.datagram, List.length_take]
  omega

/-- **A received datagram is parsed as in a fresh packet**, where no payload is left over. -/
theorem Packet.parse_received {p p' : Packet} (hp : p.payload = []) (r : Received) {verdict : Bool}
    (h : p.parse r.buffer r.length = .ok (verdict, p')) :
    ∃ q, Packet.fresh.parse r.buffer r.length = .ok (verdict, q) ∧
      (verdict = true → p'.Agrees q) := by
  obtain ⟨beyond, hbuffer⟩ := r.buffer_eq
  rw [hbuffer, r.length_eq] at h ⊢
  cases verdict with
  | true =>
    obtain ⟨q, hq, hagrees⟩ := parse_agrees hp (q := Packet.fresh) rfl h
    exact ⟨q, hq, fun _ => hagrees⟩
  | false =>
    have hverdict := parse_verdict p Packet.fresh r.datagram beyond
    rw [h] at hverdict
    cases hfresh : Packet.fresh.parse (r.datagram ++ beyond) r.datagram.length with
    | error e =>
      rw [hfresh] at hverdict
      cases hverdict
    | ok out =>
      rw [hfresh] at hverdict
      obtain ⟨v, q⟩ := out
      obtain rfl : false = v := Except.ok.inj hverdict
      exact ⟨q, rfl, nofun⟩

namespace Endpoint

/-- The message id of the request that has been handed to `send` last. -/
def requestId (e : Endpoint) : Option UInt16 := e.conn.sent.getLast?.bind datagramId

/-- What a parsed datagram answers to the request with the id `id`. -/
def answerOf (std : StdSort) (id : Option UInt16) (q : Packet) : Option Answer := do
  guard (q.headerInfo.type = MessageType.acknowledgement.toField ∧ id = some q.messageId ∧
    q.code = MessageCode.content.toByte)
  let (decoded, block, _) ← (Blockwise.init.block2GetHeader std q).toOption
  guard (decoded = true)
  pure ⟨q.payload, block.number, block.size, block.more⟩

/-- **The acceptance of a datagram**, in terms of the datagram and of the request that is
outstanding: in a `RECEIVE_DATA_BLOCK` step it parses as an ACKNOWLEDGEMENT with the id of the last
request, with code CONTENT and a decodable Block2 option. -/
def accepted (std : StdSort) (e : Endpoint) (env : Env) : Option Answer := do
  guard (e.nextState = .receiveDataBlock ∧ e.received = true)
  let r ← env.receive
  let (verdict, q) ← (Packet.fresh.parse r.buffer r.length).toOption
  guard (verdict = true)
  answerOf std e.requestId q

/-- The state in which an answer is awaited: the packet holds no payload, and `_mid` is the id of the
last request. -/
structure Waiting (e : Endpoint) : Prop where
  payload : e.pdu.payload = []
  mid : e.requestId = some e.mid

/-! ## Storing a block -/

/-- The part of an endpoint that decides what it sends and what it has stored. -/
structure Core where
  destUri : Uri
  port : UInt16
  sent : List (List UInt8)
  downloaded : List UInt8
  mid : UInt16
  block2 : Blockwise
  attempts : Nat
  deriving DecidableEq, Repr

/-- The core of an endpoint. -/
def core (e : Endpoint) : Core :=
  ⟨e.destUri, e.conn.port, e.conn.sent, e.downloaded, e.mid, e.block2, e.attempts⟩

/-- What an accepted answer changes. -/
structure Took (e : Endpoint) (a : Answer) (e' : Endpoint) : Prop where
  destUri : e'.destUri = e.destUri
  port : e'.conn.port = e.conn.port
  sent : e'.conn.sent = e.conn.sent
  downloaded : e'.downloaded = e.downloaded ++ a.payload
  attempts : e'.attempts = 0
  nextState : e'.nextState = if a.more then .sendRequest else .complete
  mid : e'.mid = if a.more then e.mid + 1 else e.mid
  number : e'.block2.number = if a.more then a.number + 1 else a.number
  size : e'.block2.size = a.size

/-- What a step that waits and accepts nothing leaves as it was, and where it goes. -/
structure Declined (e e' : Endpoint) : Prop where
  core : { e'.core with attempts := e.attempts } = e.core
  next : (e'.nextState = .sendRequest ∧ e'.attempts = e.attempts + 1 ∧
      e'.attempts ≤ receiveMaxAttempts) ∨
    (e'.nextState = .error ∧ (e'.attempts = e.attempts ∨ e'.attempts = 0))

/-- Declining is a matter of the core. -/
theorem Declined.of_core {e₀ e e' : Endpoint} (h : e.Declined e') (hcore : e.core = e₀.core) :
    e₀.Declined e' := by
  have hattempts : e.attempts = e₀.attempts := congrArg Core.attempts hcore
  refine ⟨?_, hattempts ▸ h.next⟩
  rw [← hcore, ← h.core, ← hattempts]

/-- Taking an answer is a matter of the core. -/
theorem Took.of_core {e₀ e e' : Endpoint} {a : Answer} (h : e.Took a e') (hcore : e.core = e₀.core) :
    e₀.Took a e' := by
  have hmid : e.mid = e₀.mid := congrArg Core.mid hcore
  exact ⟨h.destUri.trans (congrArg Core.destUri hcore), h.port.trans (congrArg Core.port hcore),
    h.sent.trans (congrArg Core.sent hcore),
    h.downloaded.trans (congrArg (fun c : Core => c.downloaded ++ a.payload) hcore), h.attempts,
    h.nextState, hmid ▸ h.mid, h.number, h.size⟩

/-- `retry` declines. -/
theorem retry_declined (e : Endpoint) : e.Declined e.retry := by
  unfold retry
  by_cases h : e.attempts + 1 > receiveMaxAttempts
  · rw [if_pos h]
    exact ⟨rfl, .inr ⟨rfl, .inr rfl⟩⟩
  · rw [if_neg h]
    exact ⟨rfl, .inl ⟨rfl, rfl, Nat.not_lt.mp h⟩⟩

/-- `fail` declines. -/
theorem fail_declined (e : Endpoint) (code : ErrorCode) : e.Declined (e.fail code) :=
  ⟨rfl, .inr ⟨rfl, .inl rfl⟩⟩

/-- **Storing**: a decodable Block2 option makes the payload part of the file. -/
theorem store_cases {std : StdSort} {e e' : Endpoint} {q : Packet} (hpdu : e.pdu.Agrees q)
    (hmid : e.mid = e.pdu.messageId) (h : e.store std = .ok e') :
    ∃ decoded block q', Blockwise.init.block2GetHeader std q = .ok (decoded, block, q') ∧
      (decoded = true → e.Took ⟨q.payload, block.number, block.size, block.more⟩ e') ∧
      (decoded = false → e.Declined e') := by
  rw [store] at h
  obtain ⟨⟨ok, block2, pdu⟩, hheader, h⟩ := bind_eq_ok.mp h
  obtain ⟨rfl, block, q', hfresh, htrue, hfalse⟩ :=
    Blockwise.getHeader_agrees hheader Blockwise.init hpdu.options.symm
  refine ⟨ok, block, q', hfresh, ?_, ?_⟩
  · rintro rfl
    obtain ⟨hnumber, hsize, hmore⟩ := htrue rfl
    have hpayload := hpdu.payload
    cases hm : block2.more with
    | true =>
      simp only [hm, Bool.not_true, Bool.false_eq_true, if_false, if_true, pure_eq_ok,
        Except.ok.injEq] at h
      subst h
      rw [hm] at hmore
      refine ⟨rfl, rfl, rfl, ?_, rfl, ?_, ?_, ?_, hsize⟩
      · simp only [setTvSec, hpayload]
      · simp only [setTvSec, ← hmore, if_true]
      · simp only [setTvSec, ← hmore, if_true, hmid]
      · simp only [setTvSec, ← hmore, if_true, hnumber]
    | false =>
      simp only [hm, Bool.not_true, Bool.false_eq_true, if_false, pure_eq_ok,
        Except.ok.injEq] at h
      subst h
      rw [hm] at hmore
      refine ⟨rfl, rfl, rfl, ?_, rfl, ?_, ?_, ?_, hsize⟩
      · simp only [hpayload]
      · simp only [← hmore, Bool.false_eq_true, if_false]
      · simp only [← hmore, Bool.false_eq_true, if_false]
      · simp only [← hmore, Bool.false_eq_true, if_false, hnumber]
  · rintro rfl
    obtain rfl := hfalse rfl
    cases h
    exact (fail_declined _ _).of_core rfl

/-- **Examining** a parsed datagram. -/
theorem examine_cases {std : StdSort} {e e' : Endpoint} {q : Packet} (hpdu : e.pdu.Agrees q)
    (h : e.examine std = .ok e') :
    (∃ a, answerOf std (some e.mid) q = some a ∧ e.Took a e') ∨
      (answerOf std (some e.mid) q = none ∧ e.Declined e') := by
  rw [examine, hpdu.headerInfo, hpdu.messageId, hpdu.code] at h
  by_cases hstray : q.headerInfo.type ≠ MessageType.acknowledgement.toField ∨ e.mid ≠ q.messageId
  · rw [if_pos hstray] at h
    cases h
    refine .inr ⟨?_, e.retry_declined⟩
    have hnot : ¬(q.headerInfo.type = MessageType.acknowledgement.toField ∧
        some e.mid = some q.messageId ∧ q.code = MessageCode.content.toByte) := by
      rintro ⟨htype, hid, -⟩
      rcases hstray with hstray | hstray
      · exact hstray htype
      · exact hstray (Option.some.inj hid)
    rw [answerOf, guard, if_neg hnot]
    rfl
  rw [if_neg hstray] at h
  rw [not_or, not_ne_iff, not_ne_iff] at hstray
  obtain ⟨htype, hid⟩ := hstray
  by_cases hcode : q.code = MessageCode.content.toByte
  · have hfound : q.code ≠ MessageCode.notFound.toByte := by
      rw [hcode]
      decide
    rw [if_neg hfound, if_neg (not_not.mpr hcode)] at h
    obtain ⟨decoded, block, q', hheader, htrue, hfalse⟩ :=
      store_cases hpdu (hid.trans hpdu.messageId.symm) h
    cases decoded with
    | true =>
      refine .inl ⟨_, ?_, htrue rfl⟩
      simp [answerOf, guard, htype, hid, hcode, hheader, Except.toOption]
    | false =>
      refine .inr ⟨?_, hfalse rfl⟩
      simp [answerOf, guard, htype, hid, hcode, hheader, Except.toOption]
  · refine .inr ⟨by simp [answerOf, guard, hcode], ?_⟩
    by_cases hfound : q.code = MessageCode.notFound.toByte
    · rw [if_pos hfound] at h
      cases h
      exact e.fail_declined _
    · rw [if_neg hfound, if_pos hcode] at h
      cases h
      exact e.fail_declined _

/-- **The receive step**: a datagram is accepted, or nothing changes but the attempts. -/
theorem receiveDataBlockHandler_cases {std : StdSort} {e e' : Endpoint} {env : Env}
    (hnext : e.nextState = .receiveDataBlock) (hwait : e.Waiting)
    (h : e.receiveDataBlockHandler std env = .ok e') :
    (∃ a, e.accepted std env = some a ∧ e.Took a e') ∨
      (e.accepted std env = none ∧ e.Declined e') := by
  rw [receiveDataBlockHandler] at h
  cases hreceived : e.received with
  | false =>
    simp only [hreceived, Bool.false_eq_true, if_false] at h
    cases h
    refine .inr ⟨?_, (retry_declined _).of_core rfl⟩
    simp [accepted, guard, hreceived]
  | true =>
    simp only [hreceived, if_true] at h
    cases hr : env.receive with
    | none =>
      simp only [hr] at h
      cases h
      refine .inr ⟨?_, (fail_declined _ _).of_core rfl⟩
      simp [accepted, hr]
    | some r =>
      simp only [hr] at h
      obtain ⟨⟨verdict, pdu⟩, hparse, h⟩ := bind_eq_ok.mp h
      obtain ⟨q, hq, hagrees⟩ := Packet.parse_received hwait.payload r hparse
      cases verdict with
      | false =>
        cases h
        refine .inr ⟨?_, (fail_declined _ _).of_core rfl⟩
        simp [accepted, guard, hr, hq, Except.toOption]
      | true =>
        -- the id of the outstanding request is `_mid`, by the invariant
        have haccepted : e.accepted std env = answerOf std (some e.mid) q := by
          simp [accepted, guard, hnext, hreceived, hr, hq, hwait.mid, Except.toOption]
        rw [haccepted]
        rcases examine_cases (hagrees rfl) h with ⟨a, ha, htook⟩ | ⟨hnone, hdeclined⟩
        · exact .inl ⟨a, ha, htook.of_core rfl⟩
        · exact .inr ⟨hnone, hdeclined.of_core rfl⟩

/-! ## Sending a request -/

/-- The packet `p` is a request of the endpoint `e` with the message id `mid`. -/
structure IsRequest (e : Endpoint) (mid : UInt16) (p : Packet) : Prop where
  version : p.headerInfo.version = coapVersion
  type : p.headerInfo.type = MessageType.confirmable.toField
  tokenLength : p.headerInfo.tokenLength.val ≤ tokenMaxLength
  code : p.code = MessageCode.get.toByte
  messageId : p.messageId = mid
  payload : p.payload = []
  options : p.options.Perm
    (Blockwise.headerOptions block2Number e.block2.restarted e.conn.port e.destUri)
  ordered : p.options.Pairwise (·.number ≤ ·.number)
  segments : ∀ segment ∈ e.destUri.uri.asString, segment.length ≤ optionMaxLength
  encoded : (e.block2.restarted.encoded block2Number).1 = true

/-- The message id of the next request. -/
def nextMid (e : Endpoint) (env : Env) : UInt16 := if e.mid = 0 then env.messageId else e.mid

/-- A step in which a request is handed to `send`. -/
structure Requested (e : Endpoint) (env : Env) (p : Packet) (e' : Endpoint) : Prop where
  isRequest : e.IsRequest (e.nextMid env) p
  core : e'.core = { e.core with
    block2 := e.block2.restarted
    mid := e.nextMid env
    sent := e.conn.sent ++ [p.wireBytes] }
  pdu : e'.pdu = p
  next : e'.nextState = .receiveDataBlock ∨ e'.nextState = .error

/-- A step in which no request can be built. -/
structure Unsent (e e' : Endpoint) : Prop where
  core : { e'.core with mid := e.mid } = { e.core with block2 := e.block2.restarted }
  next : e'.nextState = .error

/-- **Transmitting** a packet without payload: it is written into the buffer, of which the size is
kept, and handed to `send`; or its token is too long, and the endpoint goes to `ERROR`. -/
theorem transmit_cases {e e' : Endpoint} {env : Env} (hpayload : e.pdu.payload = [])
    (h : e.transmit env = .ok e') :
    e'.state = e.state ∧ e'.conn.buffer.length = e.conn.buffer.length ∧
      ((e.pdu.headerInfo.tokenLength.val ≤ tokenMaxLength ∧
        e.pdu.wireBytes.length ≤ e.conn.buffer.length ∧
        e'.core = { e.core with sent := e.conn.sent ++ [e.pdu.wireBytes] } ∧ e'.pdu = e.pdu ∧
        (e'.nextState = .receiveDataBlock ∨ e'.nextState = .error)) ∨
      (tokenMaxLength < e.pdu.headerInfo.tokenLength.val ∧ e'.conn = e.conn ∧
        e'.core = e.core ∧ e'.nextState = .error)) := by
  rw [transmit] at h
  obtain ⟨measured, hmeasure, h⟩ := bind_eq_ok.mp h
  by_cases htoken : e.pdu.headerInfo.tokenLength.val ≤ tokenMaxLength
  · have hverdict := Packet.serialize_unrefused htoken hpayload hmeasure
    obtain ⟨-, hpacket, -⟩ := Packet.serialize_true hmeasure hverdict
    simp only [hverdict, Bool.not_true, Bool.false_eq_true, if_false, hpacket] at h
    obtain ⟨written, hwrite, h⟩ := bind_eq_ok.mp h
    have hverdict' := Packet.serialize_unrefused htoken hpayload hwrite
    obtain ⟨-, hpacket', -⟩ := Packet.serialize_true hwrite hverdict'
    obtain ⟨hfits, hsize, hread⟩ := Packet.serialize_fits hwrite hverdict'
    -- what is sent is the front of the buffer, up to the length that was written
    simp only [hverdict', Bool.not_true, Bool.false_eq_true, if_false, send, hread, hpacket',
      ok_bind] at h
    cases hok : env.sendOk with
    | false =>
      simp only [hok] at h
      cases h
      exact ⟨rfl, hsize, .inl ⟨htoken, hfits, rfl, rfl, .inr rfl⟩⟩
    | true =>
      simp only [hok] at h
      cases h
      exact ⟨rfl, hsize, .inl ⟨htoken, hfits, rfl, rfl, .inl rfl⟩⟩
  · have hverdict : measured.verdict = false :=
      Bool.eq_false_iff.mpr fun htrue => htoken (Packet.serialize_true hmeasure htrue).2.2
    simp only [hverdict, Bool.not_false, if_true] at h
    cases h
    exact ⟨rfl, rfl, .inr ⟨Nat.not_le.mp htoken, rfl, rfl, rfl⟩⟩

/-- **The send step**: a request is handed to `send`, or none can be built. -/
theorem sendRequestHandler_cases {std : StdSort} {e e' : Endpoint} {env : Env}
    (h : e.sendRequestHandler std env = .ok e') :
    (∃ p, e.Requested env p e') ∨ e.Unsent e' := by
  rw [sendRequestHandler] at h
  obtain ⟨⟨ok, block2, pdu⟩, hheader, h⟩ := bind_eq_ok.mp h
  obtain ⟨rfl, hencoded, hsegments, -, hoptions⟩ :=
    Blockwise.setHeader_eq_ok block2Number_le hheader
  cases ok with
  | false =>
    cases h
    exact .inr ⟨rfl, rfl⟩
  | true =>
    simp only [Bool.not_true, Bool.false_eq_true, if_false] at h
    obtain ⟨hperm, hordered⟩ := hoptions rfl
    obtain ⟨request, hrequest, h⟩ := bind_eq_ok.mp h
    obtain ⟨-, -, hrequest⟩ := bind_eq_ok.mp hrequest
    cases hrequest
    obtain ⟨-, -, ⟨htoken, -, hcore, hpdu, hnext⟩ | ⟨-, -, hcore, hnext⟩⟩ := transmit_cases rfl h
    · exact .inl ⟨_, ⟨rfl, rfl, htoken, rfl, rfl, rfl, hperm, hordered, hsegments, hencoded.symm⟩,
        hcore, hpdu, hnext⟩
    · refine .inr ⟨?_, hnext⟩
      rw [hcore]
      rfl

/-! ## The state that is shown -/

/-- `retry` touches neither `_state` nor the connection, the packet or the block state. -/
theorem retry_keeps (e : Endpoint) : e.retry.state = e.state ∧ e.retry.conn = e.conn ∧
    e.retry.pdu = e.pdu ∧ e.retry.block2 = e.block2 := by
  unfold retry
  split <;> exact ⟨rfl, rfl, rfl, rfl⟩

/-- Storing touches neither `_state` nor the connection. -/
theorem store_keeps {std : StdSort} {e e' : Endpoint} (h : e.store std = .ok e') :
    e'.state = e.state ∧ e'.conn = e.conn := by
  rw [store] at h
  obtain ⟨⟨ok, block2, pdu⟩, -, h⟩ := bind_eq_ok.mp h
  cases ok with
  | false =>
    cases h
    exact ⟨rfl, rfl⟩
  | true =>
    simp only [Bool.not_true, Bool.false_eq_true, if_false] at h
    split at h
    · cases h
      exact ⟨rfl, rfl⟩
    · cases h
      exact ⟨rfl, rfl⟩

/-- How the examination of a datagram ends. -/
theorem examine_ends {std : StdSort} {e e' : Endpoint} (h : e.examine std = .ok e') :
    e' = e.retry ∨ (∃ code, e' = e.fail code) ∨ e.store std = .ok e' := by
  rw [examine] at h
  split at h
  · cases h
    exact .inl rfl
  split at h
  · cases h
    exact .inr (.inl ⟨_, rfl⟩)
  split at h
  · cases h
    exact .inr (.inl ⟨_, rfl⟩)
  · exact .inr (.inr h)

/-- **How the receive step ends**: with a retry, a failure or a block that is stored. Until then only
the packet, the buffer and the clock have changed. -/
theorem receiveDataBlockHandler_ends {std : StdSort} {e e' : Endpoint} {env : Env}
    (h : e.receiveDataBlockHandler std env = .ok e') :
    ∃ e₁ : Endpoint, e₁.state = .receiveDataBlock ∧ e₁.block2 = e.block2 ∧
      (e₁.conn = e.conn ∨ e₁.conn.buffer.length = bufferMaxSize) ∧
      (e' = e₁.retry ∨ (∃ code, e' = e₁.fail code) ∨ e₁.store std = .ok e') := by
  rw [receiveDataBlockHandler] at h
  split at h
  · split at h
    · cases h
      refine ⟨_, ?_, ?_, ?_, .inr (.inl ⟨_, rfl⟩)⟩
      · rfl
      · rfl
      · exact .inl rfl
    · next r _ =>
      obtain ⟨⟨verdict, pdu⟩, -, h⟩ := bind_eq_ok.mp h
      cases verdict with
      | false =>
        cases h
        refine ⟨_, ?_, ?_, ?_, .inr (.inl ⟨_, rfl⟩)⟩
        · rfl
        · rfl
        · exact .inr r.size_eq
      | true =>
        refine ⟨_, ?_, ?_, ?_, examine_ends h⟩
        · rfl
        · rfl
        · exact .inr r.size_eq
  · cases h
    refine ⟨_, ?_, ?_, ?_, .inl rfl⟩
    · rfl
    · rfl
    · exact .inl rfl

/-- **A step shows the state that it has handled.** -/
theorem transactionStep_state {std : StdSort} {e e' : Endpoint} {env : Env}
    (h : e.transactionStep std env = .ok e') : e'.state = e.nextState := by
  rw [transactionStep] at h
  cases hnext : e.nextState with
  | idle | error | complete =>
    simp only [hnext] at h
    cases h
    rfl
  | sendRequest =>
    simp only [hnext, sendRequestHandler] at h
    obtain ⟨⟨ok, block2, pdu⟩, -, h⟩ := bind_eq_ok.mp h
    cases ok with
    | false =>
      cases h
      rfl
    | true =>
      obtain ⟨request, hrequest, h⟩ := bind_eq_ok.mp h
      obtain ⟨-, -, hrequest⟩ := bind_eq_ok.mp hrequest
      cases hrequest
      exact (transmit_cases rfl h).1
  | receiveDataBlock =>
    simp only [hnext] at h
    obtain ⟨e₁, hstate, -, -, rfl | ⟨code, rfl⟩ | hstore⟩ := receiveDataBlockHandler_ends h
    · exact e₁.retry_keeps.1.trans hstate
    · exact hstate
    · exact (store_keeps hstore).1.trans hstate

/-! ## One call -/

/-- **What a call does**, in terms of the core and the next state. -/
inductive Effect (std : StdSort) (e : Endpoint) : Call → Endpoint → Prop where
  | start {e' : Endpoint} (core : e'.core = e.core) (state : e'.state = e.state)
      (next : e'.nextState = .sendRequest) : Effect std e .start e'
  | stop {e' : Endpoint} (core : e'.core = e.core) (state : e'.state = e.state)
      (next : e'.nextState = .error) : Effect std e .stop e'
  | setReceived {e' : Endpoint} {received : Bool} (core : e'.core = e.core)
      (state : e'.state = e.state) (pdu : e'.pdu = e.pdu) (next : e'.nextState = e.nextState) :
      Effect std e (.setReceived received) e'
  | rest {e' : Endpoint} {env : Env} (turn : e.nextState ≠ .sendRequest)
      (turn' : e.nextState ≠ .receiveDataBlock) (core : e'.core = e.core)
      (next : e'.nextState = .idle) : Effect std e (.transactionStep env) e'
  | requested {e' : Endpoint} {env : Env} {p : Packet} (turn : e.nextState = .sendRequest)
      (requested : e.Requested env p e') : Effect std e (.transactionStep env) e'
  | unsent {e' : Endpoint} {env : Env} (turn : e.nextState = .sendRequest)
      (unsent : e.Unsent e') : Effect std e (.transactionStep env) e'
  | took {e' : Endpoint} {env : Env} {a : Answer} (turn : e.nextState = .receiveDataBlock)
      (accepted : e.accepted std env = some a) (took : e.Took a e') :
      Effect std e (.transactionStep env) e'
  | declined {e' : Endpoint} {env : Env} (turn : e.nextState = .receiveDataBlock)
      (accepted : e.accepted std env = none) (declined : e.Declined e') :
      Effect std e (.transactionStep env) e'

/-- **The invariant of a client**: while an answer is awaited, the packet is empty and `_mid` belongs
to the last request, and the attempts are within their bound. -/
structure Inv (e : Endpoint) : Prop where
  waiting : e.nextState = .receiveDataBlock → e.Waiting
  attempts : e.attempts ≤ receiveMaxAttempts

/-- Each call has its effect. -/
theorem step_effect {std : StdSort} {e e' : Endpoint} {call : Call} (hinv : e.Inv)
    (h : e.step std call = .ok e') : Effect std e call e' := by
  cases call with
  | start =>
    cases h
    exact .start rfl rfl rfl
  | stop =>
    cases h
    exact .stop rfl rfl rfl
  | setReceived received =>
    cases h
    exact .setReceived rfl rfl rfl rfl
  | transactionStep env =>
    rw [step, transactionStep] at h
    cases hnext : e.nextState with
    | idle | error | complete =>
      simp only [hnext] at h
      cases h
      exact .rest (by simp [hnext]) (by simp [hnext]) rfl rfl
    | sendRequest =>
      simp only [hnext] at h
      rcases sendRequestHandler_cases h with ⟨p, hp⟩ | hu
      · exact .requested hnext hp
      · exact .unsent hnext hu
    | receiveDataBlock =>
      simp only [hnext] at h
      rcases receiveDataBlockHandler_cases hnext (hinv.waiting hnext) h with
        ⟨a, ha, htook⟩ | ⟨hnone, hdeclined⟩
      · exact .took hnext ha htook
      · exact .declined hnext hnone hdeclined

/-- The id of a request is the message id of its packet. -/
theorem datagramId_wireBytes (p : Packet) : datagramId p.wireBytes = some p.messageId :=
  congrArg some (Packet.join_messageId p.messageId)

/-- **Every call keeps the invariant.** -/
theorem Effect.inv {std : StdSort} {e e' : Endpoint} {call : Call} (hinv : e.Inv)
    (h : Effect std e call e') : e'.Inv := by
  have hattempts (hcore : e'.core = e.core) : e'.attempts ≤ receiveMaxAttempts := by
    have heq : e'.attempts = e.attempts := congrArg Core.attempts hcore
    rw [heq]
    exact hinv.attempts
  cases h with
  | start core _ next => exact ⟨fun h => by simp [next] at h, hattempts core⟩
  | stop core _ next => exact ⟨fun h => by simp [next] at h, hattempts core⟩
  | rest _ _ core next => exact ⟨fun h => by simp [next] at h, hattempts core⟩
  | setReceived core _ pdu next =>
    refine ⟨fun h => ?_, hattempts core⟩
    obtain ⟨hpayload, hmid⟩ := hinv.waiting (next ▸ h)
    have hsent : e'.conn.sent = e.conn.sent := congrArg Core.sent core
    have heq : e'.mid = e.mid := congrArg Core.mid core
    refine ⟨by rw [pdu, hpayload], ?_⟩
    rw [requestId, hsent, heq]
    exact hmid
  | @requested _ env p turn requested =>
    have hsent : e'.conn.sent = e.conn.sent ++ [p.wireBytes] := congrArg Core.sent requested.core
    have hmid : e'.mid = e.nextMid env := congrArg Core.mid requested.core
    have heq : e'.attempts = e.attempts := congrArg Core.attempts requested.core
    refine ⟨fun _ => ⟨?_, ?_⟩, heq ▸ hinv.attempts⟩
    · rw [requested.pdu, requested.isRequest.payload]
    · rw [requestId, hsent, List.getLast?_concat, Option.bind_some, datagramId_wireBytes,
        requested.isRequest.messageId, hmid]
  | unsent turn unsent =>
    have heq : e'.attempts = e.attempts := congrArg Core.attempts unsent.core
    exact ⟨fun h => by simp [unsent.next] at h, heq ▸ hinv.attempts⟩
  | @took _ env a turn accepted took =>
    refine ⟨fun h => ?_, by rw [took.attempts]; exact Nat.zero_le _⟩
    rw [took.nextState] at h
    split at h <;> cases h
  | declined turn accepted declined =>
    rcases declined.next with ⟨hnext, -, hle⟩ | ⟨hnext, hsame | hzero⟩
    · exact ⟨fun h => by simp [hnext] at h, hle⟩
    · exact ⟨fun h => by simp [hnext] at h, hsame ▸ hinv.attempts⟩
    · exact ⟨fun h => by simp [hnext] at h, by rw [hzero]; exact Nat.zero_le _⟩

/-- A new client is idle and meets the invariant. -/
theorem create_inv {path : List UInt8} {conn : Connection} {pdu : Packet} {tvSec : Int}
    {error : ErrorCode} {e : Endpoint} (h : create path conn pdu tvSec error = .ok e) :
    e.Inv ∧ e.nextState = .idle ∧ e.state = .idle ∧
      e.core = ⟨e.destUri, conn.port, conn.sent, [], 0, .init, 0⟩ := by
  rw [create] at h
  obtain ⟨destUri, -, h⟩ := bind_eq_ok.mp h
  obtain ⟨name, -, h⟩ := bind_eq_ok.mp h
  cases h
  exact ⟨⟨nofun, Nat.zero_le _⟩, rfl, rfl, rfl⟩

/-- The invariant holds at the end of every run. -/
theorem run_inv {std : StdSort} {e e' : Endpoint} {calls : List Call} (hinv : e.Inv)
    (h : e.run std calls = .ok e') : e'.Inv :=
  run_invariant (fun _ _ _ hs hstep => (step_effect hs hstep).inv hs) hinv h

end Endpoint

end LibCoap
