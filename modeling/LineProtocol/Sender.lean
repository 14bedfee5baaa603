import LineProtocol.Buffer
import LineProtocol.Connection
/-!
# Senders

A sender composes rows in a buffer and delivers finished rows over one
connection at a time.  Ending a row also delivers what is buffered once that
exceeds the initial size of the buffer.  A failed delivery is not repeated; the
bytes that were taken leave the buffer, so that the next one goes on from there.
-/

namespace LineProtocol

def version : Text := "0.1.0"

/-- A sender, at a moment of a clock that only moves while bytes are sent. -/
structure Sender where
  address : Address
  buffer : Buffer
  connection : Option Connection
  /-- The reading of the clock, in seconds. -/
  clock : Binary64

/-- An operation on a sender: the sender afterwards, what happened outside, and how it ended. -/
structure Step where
  sender : Sender
  events : List Event
  outcome : Outcome

/-- A request to give up: none is given, or it has not been made yet, or it has been made. -/
abbrev Cancellation := Option Bool

namespace Step

/-- Goes on with `next` unless the step failed. -/
def andThen (s : Step) (next : Sender → Step) : Step :=
  match s.outcome with
  | .error _ => s
  | .ok () =>
    let t := next s.sender
    { t with events := s.events ++ t.events }

/-- Goes on with `next` in any case; a failure of the first step prevails. -/
def always (s : Step) (next : Sender → Step) : Step :=
  let t := next s.sender
  { sender := t.sender
    events := s.events ++ t.events
    outcome :=
      match s.outcome with
      | .error failure => .error failure
      | .ok () => t.outcome }

end Step

namespace Sender

def done (events : List Event) (s : Sender) : Step := ⟨s, events, .ok ()⟩

/-- A step that ends with an error of the transport. -/
def fail (e : TransportError) (events : List Event) (s : Sender) : Step :=
  ⟨s, events, .error (.error (.transport e))⟩

/-- A step that a fault passes through. -/
def raise (fault : Fault) (events : List Event) (s : Sender) : Step :=
  ⟨s, events, .error (.fault fault)⟩

/-- The integer that the log shows for a size, which must be one that can be written out. -/
def loggedSize (size : Value) : Except Fault Int := do
  let size ← size.whole (← size.compared .atMost)
  if (Decimal.text? size).isNone then throw .tooManyDigits
  return size

/-- A sender for an address, with a buffer of the given size or, if that is not positive, of the
default size; and what was logged on the way. -/
def create (address size : Value) (clock : Binary64) : Except Failure Sender × List Event :=
  match Address.ofValue address with
  | .error failure => (.error failure, [])
  | .ok address =>
    match Capacity.ofValue size with
    | .error fault => (.error (.fault fault), [])
    | .ok capacity =>
      if capacity.isNonpositive then
        match loggedSize size with
        | .error fault => (.error (.fault fault), [])
        | .ok size =>
          (.ok ⟨address, .empty (.exact Capacity.defaultSize), none, clock⟩,
            [.log (.sizeIgnored size)])
      else (.ok ⟨address, .empty capacity, none, clock⟩, [])

/-- A sender as a configuration string describes it. -/
def ofConfig (conf : Value) (clock : Binary64) : Except Failure Sender × List Event :=
  match Config.ofValue conf with
  | .error failure => (.error failure, [])
  | .ok config =>
    let size := config.initialSize.getD Capacity.defaultSize
    let (sender, events) := create (.text config.address) (.int size) clock
    (sender, .log (.configRead config) :: events)

/-- A sender as the configuration string in the environment describes it. -/
def ofEnvironment (setting : Option Text) (clock : Binary64) :
    Except Failure Sender × List Event :=
  match Config.ofEnvironment setting with
  | .error e => (.error (.error (.config e)), [])
  | .ok conf => ofConfig (.text conf) clock

def pendingSize (s : Sender) : Nat := s.buffer.size

/-- Connects to the server; `reply` is the connection that comes into being, or a fault. -/
def connect (timeout : Value) (reply : Except Fault Connection) (s : Sender) : Step :=
  if s.connection.isSome then s.fail .alreadyConnected []
  else
    match reply with
    | .error fault =>
      let events := [.connect s.address timeout false]
      if fault.kind.isSystem then s.fail (.connectFailed s.address.text fault) events
      else s.raise fault events
    | .ok connection =>
      let events := [.connect s.address timeout true, .setTimeout none]
      match connection.changeTimeout with
      | (some fault, _) => s.raise fault events
      | (none, connection) =>
        { s with connection := some connection }.done (events ++ [Event.log (.connected s.address)])

def build (call : Call) (s : Sender) : Step :=
  let (buffer, outcome) := s.buffer.apply call
  ⟨{ s with buffer }, [], outcome⟩

/-- Sends the finished rows, until the deadline if there is one. -/
def transmit (deadline : Option Deadline) (connection : Connection) (s : Sender) : Step :=
  let t := Transfer.run deadline connection.sends connection.timeouts s.clock s.buffer.committed
  let total := s.buffer.committed.length
  let s := { s with connection := some t.connection, clock := t.clock }
  match t.fault with
  | some fault =>
    if fault.kind.isSystem then
      { s with buffer := s.buffer.consume t.sent }.fail (.flushFailed fault t.sent total) t.events
    else s.raise fault t.events
  | none =>
    match (s.buffer.consume t.sent).shrink? with
    | none => ⟨s, t.events, .error .endless⟩
    | some buffer =>
      { s with buffer }.done (t.events ++ [Event.log (.flushed t.sent s.address)])

/-- Sends the finished rows over a connection, within the given number of seconds if it is not
null. -/
def deliver (timeout : Value) (connection : Connection) (s : Sender) : Step :=
  match timeout with
  | .null =>
    let events := [.setTimeout none]
    match connection.changeTimeout with
    | (some fault, connection) => { s with connection := some connection }.raise fault events
    | (none, connection) =>
      let t := s.transmit none connection
      { t with events := events ++ t.events }
  | _ =>
    match timeout.compared .atMost with
    | .error fault => s.raise fault []
    | .ok n =>
      if n.isNonpositive then s.fail .deadlinePassed []
      else
        match timeout.seconds n with
        | .error fault => s.raise fault []
        | .ok seconds => s.transmit (some (.after timeout.precision s.clock seconds)) connection

/-- Sends the finished rows; the row in progress stays.  The error of a row in progress comes
first, and discards that row. -/
def flush (timeout : Value) (cancel : Cancellation) (s : Sender) : Step :=
  match s.buffer.pending with
  | some e => ⟨{ s with buffer := s.buffer.discard }, [], .error (.error (.row e))⟩
  | none =>
    match s.connection with
    | none => s.fail .notConnected []
    | some connection =>
      if cancel = some true then s.fail .cancelled []
      else s.deliver timeout connection

def isOverfull (s : Sender) : Bool := !s.buffer.initialSize.fits s.buffer.size

/-- Ends the row in progress with a timestamp, and flushes an overfull buffer. -/
def endRow (timestamp timeout : Value) (cancel : Cancellation) (s : Sender) : Step :=
  let (buffer, outcome) := s.buffer.endRow timestamp
  Step.andThen ⟨{ s with buffer }, [], outcome⟩ fun s =>
    if s.isOverfull then s.flush timeout cancel else s.done []

/-- Closes the connection, if there is one; what is buffered stays unsent. -/
def close (s : Sender) : Step :=
  match s.connection with
  | none => s.done []
  | some _ =>
    { s with connection := none }.done [.close, .log (.closed s.address s.buffer.size)]

/-- Leaves a block that works with the sender: flushes unless the block failed, then closes. -/
def leave (failed : Bool) (s : Sender) : Step :=
  (if failed then s.done [] else s.flush .null none).always close

def clear (s : Sender) : Step := { s with buffer := s.buffer.clear }.done []

end Sender

inductive Operation where
  | connect (timeout : Value) (reply : Except Fault Connection)
  | build (call : Call)
  | endRow (timestamp timeout : Value) (cancel : Cancellation)
  | flush (timeout : Value) (cancel : Cancellation)
  | leave (failed : Bool)
  | close
  | clear

namespace Sender

def perform : Operation → Sender → Step
  | .connect timeout reply => connect timeout reply
  | .build call => build call
  | .endRow timestamp timeout cancel => endRow timestamp timeout cancel
  | .flush timeout cancel => flush timeout cancel
  | .leave failed => leave failed
  | .close => close
  | .clear => clear

/-- The steps of carrying out operations one after the other, whatever becomes of each. -/
def run : List Operation → Sender → List Step
  | [], _ => []
  | op :: ops, s =>
    let step := s.perform op
    step :: run ops step.sender

/-- Carries out operations up to the first that fails. -/
def performAll (ops : List Operation) (s : Sender) : Step :=
  ops.foldl (fun step op => step.andThen (perform op)) (s.done [])

/-- Connects, carries out operations up to the first that fails, and leaves the block that they
form. -/
def within (reply : Except Fault Connection) (ops : List Operation) (s : Sender) : Step :=
  (s.connect .null reply).andThen fun s =>
    let block := s.performAll ops
    block.always (leave (block.outcome matches .error _))

end Sender

end LineProtocol
