import LibCoap.Client.Transfer

/-! # The main loop of the command line client

`main` of `client.cc` with `clientConnection`: the program waits in `select` for the standard input, the
socket and the timeout, tells the endpoint of a datagram and lets it take a step, until the endpoint is
in `COMPLETE` or `ERROR`. What happens outside is a sequence of events: something arrives at the socket,
something is entered on the standard input, or the program takes another turn of its loop, in which
the environment decides how `select` and the calls of the socket end. -/

namespace LibCoap

open Machine

/-! ## `clientConnection` -/

/-- What waits at the socket for `recvfrom`. -/
inductive Arrival where
  | datagram (bytes : List UInt8)
  /-- An error of the socket; `recvfrom` returns `-1`. -/
  | failure
  deriving DecidableEq, Repr

/-- What `clientConnection::receive` delivers: the buffer is cleared, and `recvfrom` writes as much of
the datagram as there is room for. -/
def Arrival.receive : Arrival → Option Received
  | .datagram bytes => some (.cleared (bytes.take bufferMaxSize) (List.length_take_le _ _))
  | .failure => none

/-- The connection behind `clientConnection::receive`: the buffer is cleared also where `recvfrom`
fails. -/
def Arrival.leave (a : Arrival) (conn : Connection) : Connection :=
  match a with
  | .datagram _ => conn
  | .failure => { conn with buffer := List.replicate bufferMaxSize 0 }

/-! ## The program -/

/-- `struct timeval`. -/
structure Timeval where
  sec : Int
  usec : Nat
  deriving DecidableEq, Repr

/-- The microseconds of a second. -/
def microsPerSecond : Nat := 1000000

/-- What the environment decides in one turn of the loop. -/
structure Surroundings where
  /-- What `select` leaves in `tv` when it returns `-1`; `none` when it does not. -/
  failed : Option Timeval
  /-- The microseconds that `select` takes, unless it waits for all of the timeout. -/
  elapsed : Nat
  /-- The value of `generate_message_id`, should it be called. -/
  messageId : UInt16
  /-- The verdict of `send`, should it be called. -/
  sendOk : Bool
  deriving DecidableEq, Repr

/-- The variables of `main`; `tv.tv_sec` is the one that the endpoint points to. -/
structure Program where
  ep : Endpoint
  /-- `tv.tv_usec`. -/
  usec : Nat
  /-- What has arrived at the socket and has not been received, oldest first. -/
  socket : List Arrival
  /-- The standard input can be read, or is at its end. -/
  stdin : Bool
  quit : Bool
  /-- `recvfrom` has been called on a socket where nothing waits, and does not return. -/
  blocked : Bool
  deriving DecidableEq, Repr

/-- `isError`. -/
def Endpoint.isError (e : Endpoint) : Bool := e.state = .error

namespace Program

/-- `main` up to its loop: the connection, the packet and the endpoint are created, the socket is
opened, and the endpoint is started. -/
def launch (path : List UInt8) (port : UInt16) (buffer : List UInt8) : Exec Program := do
  let ep ← Endpoint.create path (.open port buffer) .fresh 0 .unknown
  pure {
    ep := ep.start
    usec := 0
    socket := []
    stdin := false
    quit := false
    blocked := false }

/-- The time in `tv`, in microseconds. -/
def timeout (p : Program) : Nat := p.ep.tvSec.toNat * microsPerSecond + p.usec

/-- Set `tv` to a time in microseconds. -/
def setTimeout (p : Program) (micros : Nat) : Program :=
  { p with
    ep := { p.ep with tvSec := (micros / microsPerSecond : Nat) }
    usec := micros % microsPerSecond }

/-- `select` finds something to read. -/
def readable (p : Program) : Bool := p.stdin || !p.socket.isEmpty

/-- How long `select` waits. -/
def waiting (p : Program) (s : Surroundings) : Nat :=
  if p.readable then min s.elapsed p.timeout else p.timeout

/-- `select` with the descriptors of the standard input and the socket: `tv` is left with the time that
has not been waited for. -/
def select (p : Program) (s : Surroundings) : Program :=
  match s.failed with
  | some tv => { p with ep := { p.ep with tvSec := tv.sec }, usec := tv.usec }
  | none => p.setTimeout (p.timeout - p.waiting s)

/-- The endpoint is about to call `receive`. -/
def receives (p : Program) : Bool := p.ep.nextState = .receiveDataBlock ∧ p.ep.received = true

/-- The environment of a step of the endpoint: `receive` delivers what has waited longest. -/
def env (p : Program) (s : Surroundings) : Env :=
  ⟨s.messageId, s.sendOk, p.socket.head?.bind Arrival.receive⟩

/-- `transaction_step` on the socket. -/
def transact (std : StdSort) (p : Program) (s : Surroundings) : Exec Program :=
  if p.receives then
    match p.socket with
    | [] => pure { p with blocked := true }
    | a :: socket => do
      let ep ← p.ep.transactionStep std (p.env s)
      pure { p with ep := { ep with conn := a.leave ep.conn }, socket := socket }
  else do
    let ep ← p.ep.transactionStep std (p.env s)
    pure { p with ep := ep }

/-- The endpoint is told of what waits at the socket: `set_received(true)`. -/
def notify (p : Program) : Program :=
  { p with ep := { p.ep with received := p.ep.received || !p.socket.isEmpty } }

/-- `quit` is computed, behind a step that has returned. -/
def check (p : Program) : Program :=
  if p.blocked then p else { p with quit := p.ep.isComplete || p.ep.isError }

/-- The program takes no more turns. -/
def ended (p : Program) : Bool := p.quit || p.blocked

/-- One turn of the loop of `main`. -/
def turn (std : StdSort) (p : Program) (s : Surroundings) : Exec Program :=
  if p.ended then pure p
  else
    let p := p.select s
    -- nothing is read from the standard input, so it stays readable
    if s.failed.isSome || p.stdin then pure p
    else do
      let p ← p.notify.transact std s
      pure p.check

end Program

/-- What happens to a program. -/
inductive Event where
  | arrive (a : Arrival)
  /-- Something is entered on the standard input, or it is closed. -/
  | enter
  | turn (s : Surroundings)
  deriving DecidableEq, Repr

namespace Program

/-- What an event makes of the program. -/
def step (std : StdSort) (p : Program) : Event → Exec Program
  | .arrive a => pure { p with socket := p.socket ++ [a] }
  | .enter => pure { p with stdin := true }
  | .turn s => p.turn std s

/-- A run of the program. -/
def run (std : StdSort) (p : Program) (events : List Event) : Exec Program :=
  events.foldlM (fun p event => p.step std event) p

/-! ## A run of the program -/

/-- A program that is to download `/a` from port 5683. -/
def sampleProgram : Exec Program :=
  launch [0x2F, 0x61] 5683 (List.replicate bufferMaxSize 0)

/-- A turn in which nothing fails and 1 is the message id. -/
def sampleTurn : Event := .turn ⟨none, 0, 1, true⟩

/-- A request, its answer, and the end. -/
def sampleEvents : List Event :=
  [sampleTurn, .arrive (.datagram (Endpoint.sampleAnswer 0x07).datagram), sampleTurn, sampleTurn]

/-- The program downloads a resource of one byte and ends. -/
theorem sampleProgram_runs :
    ∃ p₀ p, sampleProgram = .ok p₀ ∧ p₀.run .insertion sampleEvents = .ok p ∧ p.quit = true ∧
      p.ep.isComplete = true ∧ p.ep.downloaded = [0x2A] := by
  have hrun : (sampleProgram >>= fun p₀ => (p₀.run .insertion sampleEvents).map fun p =>
      (p.quit, p.ep.isComplete, p.ep.downloaded)) = .ok (true, true, [0x2A]) := by
    decide +kernel
  obtain ⟨p₀, hlaunch, hrun⟩ := bind_eq_ok.mp hrun
  obtain ⟨p, hrun, hseen⟩ := map_eq_ok hrun
  simp only [Prod.mk.injEq] at hseen
  exact ⟨p₀, p, hlaunch, hrun, hseen⟩

end Program

end LibCoap
