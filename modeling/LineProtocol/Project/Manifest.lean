import LineProtocol.Decimal
import LineProtocol.Project
import LineProtocol.Text.Quoted
/-!
# The manifest of examples

The manifest lists the examples of a project.  Every entry tells the path of a
file, and `Project.checkManifest` reports the first one that is missing.

`Project.runChecks` runs this check and then the tests, which are run only if
the check succeeds.
-/

namespace LineProtocol

/-- What a document of the manifest's format holds. -/
inductive Document where
  | null
  | bool (b : Bool)
  | int (n : Int)
  /-- A number with a fraction: `mantissa` divided by a power of ten. -/
  | decimal (mantissa : Int) (places : Nat)
  | text (t : Text)
  | list (items : List Document)
  | mapping (entries : List (Text × Document))

namespace Document

instance : Inhabited Document := ⟨null⟩

def typeName : Document → Text
  | null => Text.ofString "NoneType"
  | bool _ => Text.ofString "bool"
  | int _ => Text.ofString "int"
  | decimal _ _ => Text.ofString "float"
  | text _ => Text.ofString "str"
  | list _ => Text.ofString "list"
  | mapping _ => Text.ofString "dict"

/-- The fault of using a document for what documents of its type do not do. -/
def misuse (d : Document) (lacking : String) : Fault where
  kind := .wrongType
  text := "'" ++ d.typeName ++ "' object is not " ++ Text.ofString lacking

/-- The members of a document: the items of a list, the keys of a mapping, the characters of a
text. -/
def members : Document → Except Fault (List Document)
  | list items => .ok items
  | mapping entries => .ok (entries.map fun e => text e.1)
  | text t => .ok (t.map fun c => text [c])
  | d => .error (d.misuse "iterable")

def lookup (key : Text) : Document → Except Fault Document
  | mapping entries =>
    match entries.lookup key with
    | some d => .ok d
    | none => .error { kind := .missingKey, text := key.quoted }
  | text _ => .error (.of .wrongType "string indices must be integers, not 'str'")
  | list _ => .error (.of .wrongType "list indices must be integers or slices, not str")
  | d => .error (d.misuse "subscriptable")

/-- The text of a document that tells a path. -/
def path : Document → Except Fault Text
  | text t => .ok t
  | d =>
    .error {
      kind := .wrongType
      text := "unsupported operand type(s) for /: 'PosixPath' and '" ++ d.typeName ++ "'" }

/-- The path that an entry of the manifest tells. -/
def examplePath (entry : Document) : Except Fault Text := entry.lookup "path" >>= path

end Document

namespace Project

/-- The first of the entries whose file is missing. -/
def missing? (p : Project) : List Document → Except Fault (Option Text)
  | [] => .ok none
  | entry :: entries => do
    let path ← entry.examplePath
    if ← p.hasFile (.ofText path) then p.missing? entries else return some path

def manifestName : Text := "examples.manifest.yaml"

/-- The fault of not being able to open the manifest, if there is one. -/
def manifestFault? (p : Project) : Option Fault :=
  let shown := (p.root.child manifestName).text.quoted
  match p.tree.top.find? manifestName with
  | some .file => none
  | some (.folder _) =>
    some { kind := .isDirectory, text := "[Errno 21] Is a directory: " ++ shown }
  | none =>
    some { kind := .fileNotFound, text := "[Errno 2] No such file or directory: " ++ shown }

/-- Says whether the files of all entries are there; the script fails at the first that is
missing. -/
def judgeManifest (manifest : Document) (p : Project) : Report :=
  match manifest.members >>= p.missing? with
  | .error fault => p.fails fault
  | .ok (some path) => (p.prints ("  ..missing " ++ path ++ "\n")).andThen (ends (.exited 1))
  | .ok none => p.prints "  ..ok\n"

/-- Checks that the examples in the manifest are there. -/
def checkManifest (manifest : Document) (p : Project) : Report :=
  (p.prints ("loading " ++ manifestName ++ "  ")).andThen fun p =>
    match p.manifestFault? with
    | some fault => p.fails fault
    | none => p.judgeManifest manifest

/-! ## Running the checks -/

/-- Runs a command and says what became of it; the script ends with the code of a child that
fails. -/
def verify (c : Command) (p : Project) : Report :=
  let shown := c.text
  (p.logs ("About to run: " ++ shown ++ ":\n")).andThen <|
    runs c fun code =>
      if code = 0 then logs ("Success running: " ++ shown ++ ".\n")
      else fun p =>
        (p.logs ("Command `" ++ shown ++ "` failed with return code " ++ Decimal.text code ++
          ".\n")).andThen (ends (.exited code))

/-- The check of the manifest as a child. -/
def manifestCheck (p : Project) : Command :=
  { p.script ["ci", "check_yaml.py"] with directory := none }

def tests (p : Project) : Command where
  words := p.interpreter :: ["-m", "unittest", "discover", "-s", "test", "-v"].map Text.ofString
  directory := some p.root
  assignments := []

def runChecks (p : Project) : Report :=
  (p.verify p.manifestCheck).andThen (verify p.tests)

end Project

end LineProtocol
