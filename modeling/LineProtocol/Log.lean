import LineProtocol.Capacity
import LineProtocol.Config
/-!
# Log entries

What the library reports of its work besides results and errors.
-/

namespace LineProtocol

inductive LogLevel where
  | debug
  | warning
deriving DecidableEq, Repr

inductive LogEntry where
  | configRead (config : Config)
  | sizeIgnored (size : Int)
  | connected (address : Address)
  | flushed (size : Nat) (address : Address)
  | closed (address : Address) (unsent : Nat)
deriving DecidableEq, Repr

namespace LogEntry

def level : LogEntry → LogLevel
  | sizeIgnored _ => .warning
  | _ => .debug

def source : LogEntry → Text
  | configRead _ => "qdb_ilp.conf"
  | _ => "qdb_ilp.sender"

def message : LogEntry → Text
  | configRead config => "Parsed configuration: " ++ config.shown
  | sizeIgnored size =>
    "Ignoring non-positive init_buf_size " ++ Decimal.text size ++ ", using " ++
      Decimal.text Capacity.defaultSize ++ "."
  | connected address => "Connected to " ++ address.text ++ "."
  | flushed size address =>
    "Flushed " ++ Decimal.text size ++ " bytes to " ++ address.text ++ "."
  | closed address unsent =>
    "Closed connection to " ++ address.text ++ " with " ++ Decimal.text unsent ++
      " bytes unsent."

end LogEntry

end LineProtocol
