import LineProtocol.Address
import LineProtocol.Config.Params
/-!
# Configuration strings

A configuration string names the protocol and gives parameters:

    tcp::addr=localhost:9009;init_buf_size=65536;

The parameter `addr` is required, `init_buf_size` may be missing, and there are
no others.
-/

namespace LineProtocol

/-- What a configuration string says about a sender. -/
structure Config where
  address : Text
  initialSize : Option Int
deriving DecidableEq, Repr

namespace Config

def addressKey : Text := "addr"

def sizeKey : Text := "init_buf_size"

def protocol : Text := "tcp"

def separator : Text := "::"

def readSize (value : Text) : Except ConfigError Int :=
  match Decimal.ofText? value with
  | some n => .ok n
  | none => .error (.sizeNotNumber value)

def ofParams (params : Params) : Except ConfigError Config := do
  let some address := params.lookup addressKey | throw .missingAddress
  let initialSize ← (params.lookup sizeKey).mapM readSize
  let unknown := (params.map Prod.fst).filter fun key => key ≠ addressKey ∧ key ≠ sizeKey
  if unknown ≠ [] then throw (.unknownKeys unknown)
  return { address, initialSize }

/-- Reads a configuration string; `shown` is the text as errors show it. -/
def parse (shown t : Text) : Except ConfigError Config := do
  let some (name, rest) := Text.cut? separator t | throw (.missingProtocol shown)
  if name ≠ protocol then throw (.unsupportedProtocol name)
  ofParams (← Params.parse rest)

/-- Reads a configuration string from a value, which must be a text. -/
def ofValue (v : Value) : Except Failure Config :=
  match v.text? with
  | none => .error (.fault v.cutFault)
  | some t => (parse v.quotedText t).mapError fun e => .error (.config e)

/-- The configuration string in the environment, which must be set and not empty. -/
def ofEnvironment : Option Text → Except ConfigError Text
  | none | some [] => .error .unsetEnvironment
  | some t => .ok t

def shown (c : Config) : Text :=
  "\x7b'address': " ++ c.address.quoted ++
    (match c.initialSize with
    | none => Text.ofString ""
    | some n => Text.ofString ", 'init_buf_size': " ++ Decimal.text n) ++ "\x7d"

end Config

end LineProtocol
