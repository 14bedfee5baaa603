import LineProtocol.Decimal.Literal
import LineProtocol.Error
import LineProtocol.Value
/-!
# Addresses

The address of a server is a host and a port.  It is written `host:port`, with
the port 9009 if there is none; a host that holds a colon stands in brackets
when a port follows.
-/

namespace LineProtocol

/-- Where a server listens. -/
structure Address where
  host : Text
  port : Nat
  /-- Whether the host is a text scalar, which is shown in a way of its own. -/
  isLabel : Bool := false
deriving DecidableEq, Repr

namespace Address

def defaultPort : Nat := 9009

def loopback : Address := { host := "127.0.0.1", port := defaultPort }

/-- Splits a text into host and port; the port is empty if there is none. -/
def split (shown t : Text) : Except ConfigError (Text × Text) :=
  match t with
  | [] => .ok ([], [])
  | c :: rest =>
    if c = '[' then
      match Text.cut? "]" rest with
      | none => .error (.unclosedBracket shown)
      | some (host, []) => .ok (host, [])
      | some (host, d :: port) =>
        if d = ':' then .ok (host, port) else .error (.textAfterBracket shown)
    else if 1 < t.count (CodePoint.ofChar ':') then .ok (t, [])
    else .ok ((Text.cut? ":" t).getD (t, []))

/-- Reads a port, which must be a number from 1 to 65535; the default one if the text is empty. -/
def readPort (shown t : Text) : Except ConfigError Nat :=
  if t = [] then .ok defaultPort
  else
    match Decimal.ofText? t with
    | none => .error (.portNotNumber shown t)
    | some n =>
      if 0 < n ∧ n < 65536 then .ok n.toNat else .error (.portOutOfRange shown n)

/-- Reads an address; `shown` is the text as errors show it. -/
def parse (shown t : Text) : Except ConfigError Address := do
  let (host, port) ← split shown t
  if host = [] then throw (.missingHost shown)
  return { host, port := ← readPort shown port }

/-- The address with its host marked as the text scalar `v`, if that is all of it.  A part of a
text scalar is an ordinary text. -/
def markLabel (v : Value) (a : Address) : Address :=
  match v with
  | .label t => { a with isLabel := a.host = t }
  | _ => a

def ofValue (v : Value) : Except Failure Address :=
  match v.text? with
  | none => .error (.fault v.startFault)
  | some t =>
    match parse v.quotedText t with
    | .ok a => .ok (a.markLabel v)
    | .error e => .error (.error (.config e))

def shownHost (a : Address) : Text := if a.isLabel then Value.unfilled a.host else a.host

def text (a : Address) : Text :=
  if a.host.contains ':' then
    Text.ofString "[" ++ a.shownHost ++ Text.ofString "]:" ++ Decimal.text a.port
  else a.shownHost ++ Text.ofString ":" ++ Decimal.text a.port

end Address

end LineProtocol
