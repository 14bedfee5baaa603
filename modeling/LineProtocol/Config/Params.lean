import LineProtocol.Error
/-!
# Parameters

Parameters are written `key=value;`, one after the other; the last semicolon
may be missing.  A semicolon inside a value is written twice.
-/

namespace LineProtocol

/-- Parameters in the order in which they are given. -/
abbrev Params := List (Text × Text)

namespace Params

/-- A value with every semicolon written twice. -/
def escapeValue (value : Text) : Text :=
  value.flatMap fun c : CodePoint => if c = ';' then [c, c] else [c]

def render (params : Params) : Text :=
  params.flatMap fun (key, value) =>
    key ++ CodePoint.ofChar '=' :: (escapeValue value ++ [CodePoint.ofChar ';'])

/-- Reads a value up to a semicolon that stands alone, and returns what follows that. -/
def readValue : Text → Text × Text
  | [] => ([], [])
  | [c] => if c = ';' then ([], []) else ([c], [])
  | c :: d :: rest =>
    if c = ';' then
      if d = ';' then
        let (value, rest) := readValue rest
        (c :: value, rest)
      else ([], d :: rest)
    else
      let (value, rest) := readValue (d :: rest)
      (c :: value, rest)

theorem length_readValue_le (t : Text) : (readValue t).2.length ≤ t.length := by
  fun_induction readValue t <;> simp_all <;> omega

/-- Reads the parameters in `t`, the rest of a text of `total` code points, after those in
`earlier`. -/
def readAfter (total : Nat) (earlier : Params) (t : Text) : Except ConfigError Params :=
  if t = [] then .ok earlier
  else
    match _h : Text.cut? "=" t with
    | none => .error (.missingEquals t)
    | some (key, rest) =>
      if key = [] then .error (.emptyKey (total - t.length))
      else if key ∈ earlier.map Prod.fst then .error (.duplicateKey key)
      else readAfter total (earlier ++ [(key, (readValue rest).1)]) (readValue rest).2
termination_by t.length
decreasing_by
  have hcut := Text.length_of_cut? _h
  have hvalue := length_readValue_le rest
  have hsep : (Text.ofString "=").length = 1 := rfl
  omega

/-- Reads parameters, whose keys must differ and must not be empty. -/
def parse (t : Text) : Except ConfigError Params := readAfter t.length [] t

end Params

end LineProtocol
