import LineProtocol.Binary64
import LineProtocol.Log
/-!
# Connections

A connection is known by the replies it gives: to each attempt to send and to
each change of its timeout.  Time is an input as well; it may pass while a send
is under way.  After the listed replies everything succeeds.
-/

namespace LineProtocol

structure Reply where
  /-- The seconds that pass during the attempt. -/
  elapsed : Option Binary64
  /-- The number of bytes that are taken at most, all of them if it is missing, or a fault. -/
  answer : Except Fault (Option Nat)

/-- The replies that a connection will give. -/
structure Connection where
  sends : List Reply
  timeouts : List (Option Fault)

inductive Event where
  /-- A connection is asked for; `opened` tells whether it comes into being. -/
  | connect (address : Address) (timeout : Value) (opened : Bool)
  | setTimeout (seconds : Option Binary64)
  /-- Bytes are offered; `accepted` of them are taken, or the attempt ends with a fault. -/
  | send (offered : Bytes) (accepted : Option Nat)
  | close
  | log (entry : LogEntry)

/-- The bytes that an event hands to the server. -/
def Event.taken : Event → Bytes
  | .send offered (some n) => offered.take n
  | _ => []

namespace Connection

/-- Changes the timeout: the reply, and the connection afterwards. -/
def changeTimeout (c : Connection) : Option Fault × Connection :=
  match c.timeouts with
  | [] => (none, c)
  | reply :: rest => (reply, { c with timeouts := rest })

end Connection

/-- A reading of the clock that ends sending, in the precision of the timeout that led to it. -/
structure Deadline where
  precision : Floating.Format
  time : Binary64
deriving DecidableEq

namespace Deadline

/-- The deadline that is `timeout` seconds after a reading of the clock. -/
def after (precision : Floating.Format) (clock timeout : Binary64) : Deadline where
  precision := precision
  time := (clock.round precision + timeout).round precision

def remaining (d : Deadline) (clock : Binary64) : Binary64 :=
  (d.time - clock.round d.precision).round d.precision

theorem remaining_after_double (clock timeout now : Binary64) :
    (after .double clock timeout).remaining now = clock + timeout - now := by
  simp [after, remaining]

end Deadline

/-- How far sending came. -/
structure Transfer where
  sent : Nat
  /-- The fault that ended it early. -/
  fault : Option Fault
  connection : Connection
  clock : Binary64
  events : List Event

namespace Transfer

/-- The transfer after `accepted` bytes and further events. -/
def after (accepted : Nat) (events : List Event) (t : Transfer) : Transfer :=
  { t with sent := accepted + t.sent, events := events ++ t.events }

/-- Gives the next send what is left of the time until the deadline; without one there is nothing
to do.  The reply, the later replies to such changes, and the events. -/
def arm (deadline : Option Deadline) (clock : Binary64) (timeouts : List (Option Fault)) :
    Option Fault × List (Option Fault) × List Event :=
  match deadline with
  | none => (none, timeouts, [])
  | some deadline =>
    let remaining := deadline.remaining clock
    if remaining.isNonpositive then (some .deadline, timeouts, [])
    else (timeouts.head?.join, timeouts.tail, [.setTimeout (some remaining)])

/-- Sends `data`, in as many attempts as it takes, until the deadline. -/
def run (deadline : Option Deadline) : (sends : List Reply) → (timeouts : List (Option Fault)) →
    (clock : Binary64) → (data : Bytes) → Transfer
  | sends, timeouts, clock, [] => ⟨0, none, ⟨sends, timeouts⟩, clock, []⟩
  | sends, timeouts, clock, b :: bs =>
    let data := b :: bs
    match arm deadline clock timeouts with
    | (some fault, timeouts, events) => ⟨0, some fault, ⟨sends, timeouts⟩, clock, events⟩
    | (none, timeouts, events) =>
      match sends with
      | [] =>
        ⟨data.length, none, ⟨[], timeouts⟩, clock, events ++ [.send data (some data.length)]⟩
      | reply :: sends =>
        let clock := match reply.elapsed with
          | none => clock
          | some seconds => clock + seconds
        match reply.answer with
        | .error fault =>
          ⟨0, some fault, ⟨sends, timeouts⟩, clock, events ++ [.send data none]⟩
        | .ok limit =>
          let accepted := min (limit.getD data.length) data.length
          (run deadline sends timeouts clock (data.drop accepted)).after accepted
            (events ++ [.send data (some accepted)])

end Transfer

end LineProtocol
