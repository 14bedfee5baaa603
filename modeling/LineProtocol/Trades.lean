import LineProtocol.Sender
/-!
# Two programs that record trades

Both connect to a server, write rows to the table `trades` and report an error
in one line.  The first is told host and port and writes one row with the
present time; the second is told a configuration string and writes two rows
whose time is left to the server.
-/

namespace LineProtocol

/-- A program that records trades. -/
inductive TradeProgram where
  /-- Writes one row to a host and a port. -/
  | oneRow
  /-- Writes two rows as a configuration string describes. -/
  | configured
deriving DecidableEq, Repr

/-- What became of a program. -/
structure TradeReport where
  /-- Whether everything was delivered, or the failure that the program did not handle. -/
  outcome : Except Failure Bool
  /-- What the program wrote for its user. -/
  errors : Text
  events : List Event

namespace TradeProgram

def words (s : String) : Value := .text s

/-- What both programs say of a trade before its price. -/
def opening (side : String) : List Operation :=
  [.build (.table (words "trades")), .build (.symbol (words "symbol") (words "ETH-USD")),
    .build (.symbol (words "side") (words side))]

/-- The row of the first program, with the present time in nanoseconds, and its delivery. -/
def oneRowOperations (now : Int) : List Operation :=
  opening "sell" ++
    [.build (.typed .float (words "price") (.float (.ofDecimal 261554 2))),
      .build (.typed .float (words "amount") (.float (.ofDecimal 44 5))),
      .endRow (.nanos (.int now)) .null none, .flush .null none]

/-- One row of the second program. -/
def filledTrade (side : String) (cents : Nat) : List Operation :=
  opening side ++
    [.build (.column (words "price") (.float (.ofDecimal cents 2))),
      .build (.column (words "filled") (.bool true)), .endRow Buffer.serverTime .null none]

def configuredOperations : List Operation := filledTrade "buy" 261512 ++ filledTrade "sell" 261554

/-- The most that a program is told. -/
def arity : TradeProgram → Nat
  | oneRow => 2
  | configured => 1

/-- The fault of telling a program more than it takes. -/
def tooManyArguments (p : TradeProgram) (given : Nat) : Fault where
  kind := .wrongType
  text := "example() takes from 0 to " ++ Decimal.text p.arity ++
    " positional arguments but " ++ Decimal.text given ++ " were given"

def report (events : List Event) : Outcome → TradeReport
  | .ok () => ⟨.ok true, [], events⟩
  | .error (.error e) => ⟨.ok false, "Got error: " ++ e.message ++ "\n", events⟩
  | .error failure => ⟨.error failure, [], events⟩

/-- Works with a sender that comes into being or not. -/
def deliver (made : Except Failure Sender × List Event) (reply : Except Fault Connection)
    (ops : List Operation) : TradeReport :=
  match made with
  | (.error failure, events) => report events (.error failure)
  | (.ok s, events) =>
    let step := s.within reply ops
    report (events ++ step.events) step.outcome

/-- The address text that a host and a port make up. -/
def addressText (host port : Value) : Except Fault Text := do
  return (← host.display) ++ ":" ++ (← port.display)

/-- What the programs are told from outside: the time in nanoseconds, the reading of the sender's
clock, and the connection they get. -/
structure Setting where
  now : Int
  clock : Binary64
  reply : Except Fault Connection

def runOneRow (host port : Value) (setting : Setting) : TradeReport :=
  match addressText host port with
  | .error fault => ⟨.error (.fault fault), [], []⟩
  | .ok t =>
    deliver (Sender.create (.text t) (.int Capacity.defaultSize) setting.clock) setting.reply
      (oneRowOperations setting.now)

def runConfigured (conf : Value) (setting : Setting) : TradeReport :=
  deliver (Sender.ofConfig conf setting.clock) setting.reply configuredOperations

/-- The host that the first program uses unless it is told another. -/
def usualHost : Value := words "localhost"

def usualPort : Value := .int Address.defaultPort

def usualConfig : Value := words "tcp::addr=localhost:9009;init_buf_size=65536;"

def run (p : TradeProgram) (args : List Value) (setting : Setting) : TradeReport :=
  match p, args with
  | oneRow, [] => runOneRow usualHost usualPort setting
  | oneRow, [host] => runOneRow host usualPort setting
  | oneRow, [host, port] => runOneRow host port setting
  | configured, [] => runConfigured usualConfig setting
  | configured, [conf] => runConfigured conf setting
  | _, _ => ⟨.error (.fault (p.tooManyArguments args.length)), [], []⟩

/-- The exit status of a program that ended by itself. -/
def exitStatus (delivered : Bool) : Nat := if delivered then 0 else 1

end TradeProgram

end LineProtocol
