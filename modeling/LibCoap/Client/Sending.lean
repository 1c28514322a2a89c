import LibCoap.Client.Steps

/-! # The send step, exactly

The request of a step is a function of the endpoint and of the id that may be generated
(`Endpoint.request`): its options come from the block state, the port and the path alone, its token
is whatever token the packet holds. It is sent if it fits into the memory behind the connection's
buffer, and the step does not return if it does not. -/

namespace LibCoap

open Machine Wire

namespace Endpoint

/-- What `set_header` adds for the next request. -/
def requestAdditions (e : Endpoint) : List Addition :=
  Blockwise.headerAdditions block2Number e.block2.restarted e.conn.port e.destUri

/-- The options of the next request. -/
def requestOptions (std : StdSort) (e : Endpoint) : List PacketOption :=
  Packet.appendAll std [] e.requestAdditions

/-- **The next request**, built in the packet that the endpoint has. -/
def request (std : StdSort) (e : Endpoint) (env : Env) : Packet :=
  let p := { e.pdu with
    options := e.requestOptions std
    optionBitmap := Packet.addBits (0, 0) e.requestAdditions }
  { p.setHeading .confirmable (e.nextMid env) .get with payload := [] }

/-- The endpoint once its next request is built. -/
def prepared (std : StdSort) (e : Endpoint) (env : Env) : Endpoint :=
  { e with
    state := .sendRequest
    block2 := e.block2.restarted
    mid := e.nextMid env
    pdu := e.request std env }

/-- The block option of the next request can be encoded. -/
def BlockEncoded (e : Endpoint) : Prop := (e.block2.restarted.encoded block2Number).1 = true

variable {std : StdSort} {e e' : Endpoint} {env : Env}

/-- **Where a request can be built**, the step transmits it. -/
theorem sendRequestHandler_eq (hpath : e.destUri.LegalPath) (hencoded : e.BlockEncoded) :
    e.sendRequestHandler std env = (e.prepared std env).transmit env := by
  have hheader : e.block2.block2SetHeader std e.conn.port e.destUri e.pdu =
      .ok (true, e.block2.restarted, _) :=
    Blockwise.setHeader_legal block2Number_le hpath hencoded
  rw [sendRequestHandler]
  simp only [hheader]
  rfl

/-- **Where no request can be built**, the step fails. -/
theorem sendRequestHandler_refused (hpath : e.destUri.LegalPath) (hencoded : ¬e.BlockEncoded) :
    ∃ pdu, e.sendRequestHandler std env = .ok
      ({ e with state := .sendRequest, block2 := e.block2.restarted, pdu := pdu }.fail
        .createBlockOption) := by
  have hheader : e.block2.block2SetHeader std e.conn.port e.destUri e.pdu =
      .ok (false, e.block2.restarted, _) :=
    Blockwise.setHeader_refused block2Number_le hpath (Bool.eq_false_iff.mpr hencoded)
  rw [sendRequestHandler]
  simp only [hheader]
  exact ⟨_, rfl⟩

/-- The request is tight: its options have values. -/
theorem request_tight (std : StdSort) (e : Endpoint) (env : Env) : (e.request std env).Tight := by
  have hperm : (e.request std env).options.Perm (e.requestAdditions.map Addition.option) :=
    Packet.appendAll_perm std [] e.requestAdditions
  refine ⟨fun opt hopt => ?_, .inl fun hnone => ?_⟩
  · obtain ⟨a, -, rfl⟩ := List.mem_map.mp (hperm.mem_iff.mp hopt)
    exact List.cons_ne_nil 0 a.value
  · rw [hnone] at hperm
    exact List.cons_ne_nil _ _ hperm.nil_eq.symm

/-- **A request that fits is sent.** -/
theorem transmit_sends (htoken : e.pdu.headerInfo.tokenLength.val ≤ tokenMaxLength)
    (htight : e.pdu.Tight) (hroom : e.pdu.wireBytes.length ≤ e.conn.buffer.length) :
    ∃ e', e.transmit env = .ok e' ∧ e'.conn.sent = e.conn.sent ++ [e.pdu.wireBytes] := by
  obtain ⟨measured, hmeasure, hverdict⟩ :
      ∃ s, e.pdu.serialize [] 0 true = .ok s ∧ s.verdict = true :=
    Packet.serialize_room htoken nofun nofun
  obtain ⟨⟨hlength, -⟩, hpacket, -⟩ := Packet.serialize_true hmeasure hverdict
  -- the second call is given the size that the first one has computed
  have hlength : measured.length = e.pdu.wireBytes.length := hlength
  obtain ⟨written, hwrite, hverdict'⟩ :
      ∃ s, e.pdu.serialize e.conn.buffer measured.length false = .ok s ∧ s.verdict = true :=
    Packet.serialize_room htoken (fun _ => ⟨hlength.ge, hroom⟩) (fun _ => .inl htight)
  obtain ⟨-, -, hread⟩ := Packet.serialize_fits hwrite hverdict'
  rw [transmit, hmeasure, ok_bind]
  simp only [hverdict, Bool.not_true, Bool.false_eq_true, if_false, hpacket]
  rw [hwrite, ok_bind]
  simp only [hverdict', Bool.not_true, Bool.false_eq_true, if_false, send]
  rw [hread]
  cases env.sendOk with
  | false => exact ⟨_, rfl, rfl⟩
  | true => exact ⟨_, rfl, rfl⟩

/-- **What a step that transmits returns**: the request is sent, and waited for unless `send` fails. -/
theorem transmit_fits (hpayload : e.pdu.payload = [])
    (htoken : e.pdu.headerInfo.tokenLength.val ≤ tokenMaxLength) (h : e.transmit env = .ok e') :
    ∃ conn : Connection, conn.port = e.conn.port ∧ conn.buffer.length = e.conn.buffer.length ∧
      conn.sent = e.conn.sent ++ [e.pdu.wireBytes] ∧
      e' = if env.sendOk then
          { e.setTvSec receveMaxTimeoutSeconds with conn := conn, nextState := .receiveDataBlock }
        else { e.fail .coapSend with conn := conn } := by
  rw [transmit] at h
  obtain ⟨measured, hmeasure, h⟩ := bind_eq_ok.mp h
  have hverdict := Packet.serialize_unrefused htoken hpayload hmeasure
  obtain ⟨-, hpacket, -⟩ := Packet.serialize_true hmeasure hverdict
  simp only [hverdict, Bool.not_true, Bool.false_eq_true, if_false, hpacket] at h
  obtain ⟨written, hwrite, h⟩ := bind_eq_ok.mp h
  have hverdict' := Packet.serialize_unrefused htoken hpayload hwrite
  obtain ⟨-, hpacket', -⟩ := Packet.serialize_true hwrite hverdict'
  obtain ⟨-, hsize, hread⟩ := Packet.serialize_fits hwrite hverdict'
  simp only [hverdict', Bool.not_true, Bool.false_eq_true, if_false, send, hread, hpacket',
    ok_bind] at h
  refine ⟨⟨e.conn.port, written.store.cells, written.length, e.conn.sent ++ [e.pdu.wireBytes]⟩, rfl,
    hsize, rfl, ?_⟩
  cases hok : env.sendOk with
  | false =>
    simp only [hok] at h
    cases h
    rfl
  | true =>
    simp only [hok] at h
    cases h
    rfl

/-- A request with a token that is too long is refused. -/
theorem transmit_longToken (htoken : tokenMaxLength < e.pdu.headerInfo.tokenLength.val) :
    ∃ e', e.transmit env = .ok e' ∧ e'.conn = e.conn ∧ e'.nextState = .error := by
  obtain ⟨store, hmeasure⟩ : ∃ store, e.pdu.serialize [] 0 true =
      .ok ⟨false, 0, store, { e.pdu with error := .tokenLength }⟩ :=
    Packet.serialize_refuses htoken nofun nofun
  rw [transmit, hmeasure]
  exact ⟨_, rfl, rfl, rfl⟩

/-- **How a send step returns**: no block option, a token that is too long, or a request. -/
inductive SendOutcome (std : StdSort) (e : Endpoint) (env : Env) (e' : Endpoint) : Prop where
  | noBlock (encoded : ¬e.BlockEncoded) (conn : e'.conn = e.conn) (next : e'.nextState = .error)
  | longToken (token : tokenMaxLength < e.pdu.headerInfo.tokenLength.val) (conn : e'.conn = e.conn)
      (next : e'.nextState = .error)
  | sent (encoded : e.BlockEncoded) (token : e.pdu.headerInfo.tokenLength.val ≤ tokenMaxLength)
      (fits : (e.request std env).wireBytes.length ≤ e.conn.buffer.length)
      (buffer : e'.conn.buffer.length = e.conn.buffer.length)
      (core : e'.core = { e.core with
        block2 := e.block2.restarted
        mid := e.nextMid env
        sent := e.conn.sent ++ [(e.request std env).wireBytes] })
      (pdu : e'.pdu = e.request std env)

/-- **A send step that returns** had a legal path, and one of the three outcomes. -/
theorem sendRequestHandler_outcome (h : e.sendRequestHandler std env = .ok e') :
    e.destUri.LegalPath ∧ SendOutcome std e env e' := by
  have hpath : e.destUri.LegalPath := by
    by_contra hillegal
    have hheader : e.block2.block2SetHeader std e.conn.port e.destUri e.pdu = .error .assertion :=
      Blockwise.setHeader_illegal block2Number_le hillegal
    rw [sendRequestHandler] at h
    simp only [hheader] at h
    cases h
  refine ⟨hpath, ?_⟩
  by_cases hencoded : e.BlockEncoded
  · rw [sendRequestHandler_eq hpath hencoded] at h
    have htransmit := transmit_cases (e := e.prepared std env) rfl h
    obtain ⟨-, hbuffer, ⟨htoken, hfits, hcore, hpdu, -⟩ | ⟨htoken, hconn, -, hnext⟩⟩ := htransmit
    · exact .sent hencoded htoken hfits hbuffer hcore hpdu
    · exact .longToken htoken hconn hnext
  · have hheader : e.block2.block2SetHeader std e.conn.port e.destUri e.pdu =
        .ok (false, e.block2.restarted, _) :=
      Blockwise.setHeader_refused block2Number_le hpath (Bool.eq_false_iff.mpr hencoded)
    rw [sendRequestHandler] at h
    simp only [hheader] at h
    cases h
    exact .noBlock hencoded rfl rfl

/-! ## The buffer of the connection -/

/-- **Every call keeps the size of the buffer.** -/
theorem step_buffer {call : Call} (hbuffer : e.conn.buffer.length = bufferMaxSize)
    (h : e.step std call = .ok e') : e'.conn.buffer.length = bufferMaxSize := by
  cases call with
  | start | stop | setReceived =>
    cases h
    exact hbuffer
  | transactionStep env =>
    rw [step, transactionStep] at h
    cases hnext : e.nextState with
    | idle | error | complete =>
      simp only [hnext] at h
      cases h
      exact hbuffer
    | sendRequest =>
      simp only [hnext] at h
      cases (sendRequestHandler_outcome h).2 with
      | noBlock _ conn => rw [conn, hbuffer]
      | longToken _ conn => rw [conn, hbuffer]
      | sent _ _ _ buffer => rw [buffer, hbuffer]
    | receiveDataBlock =>
      simp only [hnext] at h
      obtain ⟨e₁, -, -, hconn, hend⟩ := receiveDataBlockHandler_ends h
      have hsize : e₁.conn.buffer.length = bufferMaxSize := by
        rcases hconn with hsame | hreceived
        · rw [hsame, hbuffer]
        · exact hreceived
      rcases hend with rfl | ⟨code, rfl⟩ | hstore
      · rw [e₁.retry_keeps.2.1, hsize]
      · exact hsize
      · rw [(store_keeps hstore).2, hsize]

/-- A client keeps the buffer that its connection was opened with, or one of the same size. -/
theorem run_buffer {path buffer : List UInt8} {port : UInt16} {pdu : Packet} {tvSec : Int}
    {error : ErrorCode} {e₀ : Endpoint} {calls : List Call}
    (hcreate : create path (.open port buffer) pdu tvSec error = .ok e₀)
    (hbuffer : buffer.length = bufferMaxSize) (hrun : e₀.run std calls = .ok e) :
    e.conn.buffer.length = bufferMaxSize := by
  have hopen : e₀.conn.buffer.length = bufferMaxSize := by
    rw [create] at hcreate
    obtain ⟨destUri, -, hcreate⟩ := bind_eq_ok.mp hcreate
    obtain ⟨name, -, hcreate⟩ := bind_eq_ok.mp hcreate
    cases hcreate
    exact hbuffer
  exact run_invariant (P := fun e => e.conn.buffer.length = bufferMaxSize)
    (fun _ _ _ hs hstep => step_buffer hs hstep) hopen hrun

end Endpoint

end LibCoap
