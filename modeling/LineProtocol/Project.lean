import LineProtocol.Fault
import LineProtocol.Shell
import LineProtocol.Text.Quoted
import LineProtocol.Tree
/-!
# Projects

A project is a directory with scripts that look after it.  Scripts write, start
children and wait for them, and remove directories; `Report` says all that a
script did and how it ended.
-/

namespace LineProtocol

/-- A project and what its scripts depend on. -/
structure Project where
  /-- The names of the directories that lead to the project, from the root of the file system. -/
  location : List Text
  /-- The file system, but for the project. -/
  surroundings : Tree
  interpreter : Text
  /-- What stands in the directory of the project. -/
  tree : Tree
  /-- The exit codes of the next children; those after them succeed. -/
  exitCodes : List Int

/-- A child of a script. -/
structure Command where
  words : List Text
  /-- The directory that it works in, unless that is the script's own. -/
  directory : Option Path
  /-- The variables that it gets in addition to the script's own. -/
  assignments : List Shell.Assignment
deriving DecidableEq, Repr

/-- The command as a shell reads it. -/
def Command.text (c : Command) : Text :=
  c.assignments.flatMap (fun a => a.text ++ Text.ofString " ") ++ Shell.line c.words

/-- How a script ends. -/
inductive Ending where
  /-- It comes to its end. -/
  | finished
  | exited (code : Int)
  | failed (fault : Fault)
deriving DecidableEq, Repr

/-- The status that a script leaves to the system, which keeps eight bits of an exit code. -/
def Ending.status : Ending → Nat
  | finished => 0
  | exited code => (code % 256).toNat
  | failed _ => 1

structure Report where
  project : Project
  ending : Ending
  /-- What it wrote about its work. -/
  log : Text
  /-- What it wrote as its result. -/
  output : Text
  children : List Command

namespace Report

/-- Goes on with `next` if the script has not ended early. -/
def andThen (r : Report) (next : Project → Report) : Report :=
  match r.ending with
  | .finished =>
    let s := next r.project
    { s with
      log := r.log ++ s.log, output := r.output ++ s.output, children := r.children ++ s.children }
  | _ => r

end Report

namespace Project

def root (p : Project) : Path := ⟨.root, p.location⟩

/-- The place that the names lead to from the directory of the project. -/
def place (p : Project) (names : List String) : Path :=
  p.root.join ⟨.here, names.map Text.ofString⟩

/-- A script that ends without having done anything. -/
def ends (ending : Ending) (p : Project) : Report := ⟨p, ending, [], [], []⟩

def done : Project → Report := ends .finished

def fails (fault : Fault) : Project → Report := ends (.failed fault)

def logs (t : Text) (p : Project) : Report := { p.done with log := t }

def prints (t : Text) (p : Project) : Report := { p.done with output := t }

/-- The exit code of the next child, and the project once that has run. -/
def nextCode (p : Project) : Int × Project :=
  (p.exitCodes.head?.getD 0, { p with exitCodes := p.exitCodes.tail })

/-- Runs a child to its end and goes on as its exit code says. -/
def runs (c : Command) (next : Int → Project → Report) (p : Project) : Report :=
  let (code, p) := p.nextCode
  Report.andThen { p.done with children := [c] } (next code)

/-- Logs a command and runs it; the script ends with the code of a child that fails. -/
def execute (c : Command) (p : Project) : Report :=
  (p.logs ("[CMD] " ++ c.text ++ "\n")).andThen <|
    runs c fun code => if code = 0 then done else ends (.exited code)

/-- The script as a child that works in the directory of the project. -/
def script (p : Project) (names : List String) : Command where
  words := [p.interpreter, (p.place names).text]
  directory := some p.root
  assignments := []

/-- The file system with the project where it stands. -/
def world (p : Project) : Tree := p.surroundings.put p.location p.tree

/-- What the path leads to in the file system. -/
def resolve (p : Project) (path : Path) : Except DeadEnd Entry :=
  if !path.isNameable then .error .missing
  else if Path.maxSize < path.text.utf8.length then .error .nameTooLong
  else p.world.top.resolve [] path.names

/-- Whether the path names a plain file.  A path that starts nowhere starts from the project; one
that is too long is a fault. -/
def hasFile (p : Project) (path : Path) : Except Fault Bool :=
  let path := p.root.join path
  match p.resolve path with
  | .ok entry => .ok (entry = .file)
  | .error .missing => .ok false
  | .error .nameTooLong =>
    .error { kind := .system, text := "[Errno 36] File name too long: " ++ path.text.quoted }

end Project

end LineProtocol
