import LibCoap.Blockwise
import LibCoap.Packet.Parse
import LibCoap.Packet.Serialize

/-! # The download client

`uriClientEndpoint`: a state machine that sends a request for one block, waits for the answer, stores
its payload and goes on with the next block. One call of a public member function is a `Call`, and
`Endpoint.step` is what it does. What the environment decides in a step (the message id that is
generated, whether `send` succeeds, what `receive` delivers) comes with the call. -/

namespace LibCoap

open Machine

/-- `RECEIVE_MAX_ATTEMPTS`. -/
def receiveMaxAttempts : Nat := 4

/-- `RECEVE_MAX_TIMEOUT_SECONDS`. -/
def receveMaxTimeoutSeconds : Int := 2

/-- `BUFFER_MAX_SIZE`. -/
def bufferMaxSize : Nat := 2500

/-- The part of `connection` that the client uses, with a record of what has been handed to
`send`. -/
structure Connection where
  /-- `_port`; the constructor refuses everything outside 16 bits. -/
  port : UInt16
  /-- The memory behind `_buffer`. -/
  buffer : List UInt8
  /-- `_length`. -/
  length : Nat
  /-- The datagrams handed to `send`, oldest first. -/
  sent : List (List UInt8)
  deriving DecidableEq, Repr

/-- `connection::connection`; the buffer comes uninitialised. -/
def Connection.open (port : UInt16) (buffer : List UInt8) : Connection :=
  ⟨port, buffer, bufferMaxSize, []⟩

/-- What `receive` leaves in the connection when it succeeds: a datagram in front of a buffer. -/
structure Received where
  /-- The memory behind `_buffer`. -/
  buffer : List UInt8
  /-- `_length`. -/
  length : Nat
  size_eq : buffer.length = bufferMaxSize
  fits : length ≤ bufferMaxSize
  deriving DecidableEq, Repr

/-- The datagram that has been received. -/
def Received.datagram (r : Received) : List UInt8 := r.buffer.take r.length

/-- A datagram in a buffer that has been cleared before, as `clientConnection::receive` does. -/
def Received.cleared (datagram : List UInt8) (h : datagram.length ≤ bufferMaxSize) : Received where
  buffer := datagram ++ List.replicate (bufferMaxSize - datagram.length) 0
  length := datagram.length
  size_eq := by rw [List.length_append, List.length_replicate]; omega
  fits := h

/-- The datagram in a cleared buffer. -/
@[simp] theorem Received.datagram_cleared (datagram : List UInt8)
    (h : datagram.length ≤ bufferMaxSize) : (Received.cleared datagram h).datagram = datagram :=
  List.take_left

/-- What the environment decides in one step. -/
structure Env where
  /-- The value of `generate_message_id`, should it be called. -/
  messageId : UInt16
  /-- The verdict of `send`, should it be called. -/
  sendOk : Bool
  /-- What `receive` delivers, should it be called; `none` when it returns `false`. -/
  receive : Option Received
  deriving DecidableEq, Repr

/-- `state_t`. -/
inductive State where
  | idle
  | sendRequest
  | receiveDataBlock
  | error
  | complete
  deriving DecidableEq, Repr

/-- `uriClientEndpoint`. -/
structure Endpoint where
  destUri : Uri
  state : State
  nextState : State
  conn : Connection
  pdu : Packet
  attempts : Nat
  tvSec : Int
  mid : UInt16
  received : Bool
  /-- The bytes written to `_downloaded_file`. -/
  downloaded : List UInt8
  block2 : Blockwise
  error : ErrorCode
  deriving DecidableEq, Repr

namespace Endpoint

/-- `uriClientEndpoint::uriClientEndpoint`: the path must have a segment, and the name of the file is
the last string of `asString`. -/
def create (path : List UInt8) (conn : Connection) (pdu : Packet) (tvSec : Int)
    (error : ErrorCode) : Exec Endpoint := do
  let destUri ← Uri.ofPath path
  let _ ← readAtInt destUri.uri.asString ((destUri.uri.asString.length : Int) - 1)
  pure {
    destUri := destUri
    state := .idle
    nextState := .idle
    conn := conn
    pdu := pdu
    attempts := 0
    tvSec := tvSec
    mid := 0
    received := false
    downloaded := []
    block2 := .init
    error := error }

/-- `set_tv_sec`. -/
def setTvSec (e : Endpoint) (seconds : Int) : Endpoint :=
  { e with tvSec := if seconds > 60 then 60 else seconds }

/-- An error code is set and the next state is `ERROR`. -/
def fail (e : Endpoint) (code : ErrorCode) : Endpoint :=
  { e with error := code, nextState := .error }

/-- `start`. -/
def start (e : Endpoint) : Endpoint := { e with nextState := .sendRequest }

/-- `stop`. -/
def stop (e : Endpoint) : Endpoint := { e with nextState := .error }

/-- `idle_handler`. -/
def idleHandler (e : Endpoint) : Endpoint := { e with state := .idle, nextState := .idle }

/-- `error_handler`. -/
def errorHandler (e : Endpoint) : Endpoint := { e with state := .error, nextState := .idle }

/-- `complete_handler`. -/
def completeHandler (e : Endpoint) : Endpoint := { e with state := .complete, nextState := .idle }

/-- The call of `send`: the datagram is the first `_length` bytes of the buffer. -/
def send (e : Endpoint) : Exec Endpoint := do
  let datagram ← readRange e.conn.buffer 0 e.conn.length
  pure { e with conn := { e.conn with sent := e.conn.sent ++ [datagram] } }

/-- `send_request_handler` behind `make_request`: the two calls of `serialize`, and `send`. -/
def transmit (e : Endpoint) (env : Env) : Exec Endpoint := do
  -- the first call only computes the size, the second one writes
  let measured ← e.pdu.serialize [] 0 true
  let e := { e with pdu := measured.packet }
  if !measured.verdict then pure (e.fail .coapSerialize)
  else
    let written ← e.pdu.serialize e.conn.buffer measured.length false
    let e := { e with
      pdu := written.packet
      conn := { e.conn with buffer := written.store.cells } }
    if !written.verdict then pure (e.fail .coapSerialize)
    else
      let e ← send { e with conn := { e.conn with length := written.length } }
      if !env.sendOk then pure (e.fail .coapSend)
      else pure { e.setTvSec receveMaxTimeoutSeconds with nextState := .receiveDataBlock }

/-- `send_request_handler`. -/
def sendRequestHandler (std : StdSort) (e : Endpoint) (env : Env) : Exec Endpoint := do
  let e := { e with state := .sendRequest }
  let (ok, block2, pdu) ← e.block2.block2SetHeader std e.conn.port e.destUri e.pdu
  let e := { e with block2 := block2, pdu := pdu }
  if !ok then pure (e.fail .createBlockOption)
  else
    -- 0 stands for an id that is still to be generated, also after a wrap-around
    let e := { e with mid := if e.mid = 0 then env.messageId else e.mid }
    let pdu ← e.pdu.makeRequest (fun _ => 0) .confirmable .get e.mid 0 []
    transmit { e with pdu := pdu } env

/-- The lambda `retry` of `receive_data_block_handler`. -/
def retry (e : Endpoint) : Endpoint :=
  if e.attempts + 1 > receiveMaxAttempts then { e.fail .coapTimeout with attempts := 0 }
  else { e with attempts := e.attempts + 1, nextState := .sendRequest }

/-- `receive_data_block_handler` behind the check of the response code: the block option is read and
the payload is stored. -/
def store (std : StdSort) (e : Endpoint) : Exec Endpoint := do
  let (ok, block2, pdu) ← e.block2.block2GetHeader std e.pdu
  let e := { e with block2 := block2, pdu := pdu }
  if !ok then pure (e.fail .decodeBlockOption)
  else
    -- the payload is written whichever block the option denotes
    let e := { e with downloaded := e.downloaded ++ e.pdu.payload, attempts := 0 }
    if e.block2.more then
      pure (setTvSec { e with
        block2 := { e.block2 with more := false, number := e.block2.number + 1 }
        mid := e.pdu.messageId + 1
        nextState := .sendRequest } 0)
    else pure { e with nextState := .complete }

/-- `receive_data_block_handler` behind `parse`: type, message id and response code are checked. -/
def examine (std : StdSort) (e : Endpoint) : Exec Endpoint :=
  if e.pdu.headerInfo.type ≠ MessageType.acknowledgement.toField ∨ e.mid ≠ e.pdu.messageId then
    pure e.retry
  else if e.pdu.code = MessageCode.notFound.toByte then pure (e.fail .uriNotFound)
  else if e.pdu.code ≠ MessageCode.content.toByte then pure (e.fail .serverCode)
  else e.store std

/-- `receive_data_block_handler`. -/
def receiveDataBlockHandler (std : StdSort) (e : Endpoint) (env : Env) : Exec Endpoint := do
  let e := { e with state := .receiveDataBlock }
  if e.received then
    let e := { e with received := false }
    match env.receive with
    | none => pure (e.fail .coapReceive)
    | some r =>
      let e := { e with conn := { e.conn with buffer := r.buffer, length := r.length } }
      let e := e.setTvSec 0
      -- the packet is the one that the request was built in
      let (verdict, pdu) ← e.pdu.parse e.conn.buffer e.conn.length
      let e := { e with pdu := pdu }
      if !verdict then pure (e.fail .receivedPacket)
      else e.examine std
  else pure e.retry

/-- `transaction_step`. -/
def transactionStep (std : StdSort) (e : Endpoint) (env : Env) : Exec Endpoint :=
  match e.nextState with
  | .idle => pure e.idleHandler
  | .sendRequest => e.sendRequestHandler std env
  | .receiveDataBlock => e.receiveDataBlockHandler std env
  | .error => pure e.errorHandler
  | .complete => pure e.completeHandler

/-- `isComplete`. -/
def isComplete (e : Endpoint) : Bool := e.state = .complete

end Endpoint

/-- The calls that drive a client. -/
inductive Call where
  | transactionStep (env : Env)
  | start
  | stop
  | setReceived (received : Bool)
  deriving DecidableEq, Repr

/-- What a call does. -/
def Endpoint.step (std : StdSort) (e : Endpoint) : Call → Exec Endpoint
  | .transactionStep env => e.transactionStep std env
  | .start => pure e.start
  | .stop => pure e.stop
  | .setReceived received => pure { e with received := received }

/-- A run of calls. -/
def Endpoint.run (std : StdSort) (e : Endpoint) (calls : List Call) : Exec Endpoint :=
  calls.foldlM (fun e call => e.step std call) e

end LibCoap
