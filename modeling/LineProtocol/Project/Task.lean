import LineProtocol.Decimal
import LineProtocol.Project.Clean
import LineProtocol.Text.Quoted
/-!
# Tasks of a project

The command line of a project names a task and gives it the remaining words.
Whatever the task file names can be asked for: besides the tasks there are the
actions that they are made of, and things that are no actions at all.
-/

namespace LineProtocol

/-- What the task file can be asked to do. -/
inductive Task where
  | clean
  | lint
  | test
  | demo
  /-- Cleans, checks the manifest and runs the checks. -/
  | all
  /-- Runs the given words as a command. -/
  | run
  /-- Removes what stands at a path; no word is a path. -/
  | remove
  /-- Lists an action among the tasks; no word is an action. -/
  | enlist
  /-- Reads the command line anew. -/
  | restart
deriving DecidableEq, Repr

/-- How many words a task takes. -/
inductive Arity where
  | none
  /-- One word, known by a name. -/
  | one (parameter : Text)
  | any
deriving DecidableEq, Repr

namespace Arity

/-- The fault of giving a task more words than it takes. -/
def tooMany (name : Text) (takes given : Nat) : Fault where
  kind := .wrongType
  text := name ++ "() takes " ++ Decimal.text takes ++ " positional argument" ++
    Text.ofString (if takes = 1 then " but " else "s but ") ++ Decimal.text given ++
    Text.ofString (if given = 1 then " was given" else " were given")

/-- The fault of not giving a task the word that it takes. -/
def tooFew (name parameter : Text) : Fault where
  kind := .wrongType
  text := name ++ "() missing 1 required positional argument: " ++ parameter.quoted

/-- The fault of giving a task so many words, if it does not take them. -/
def fault? (name : Text) (given : Nat) : Arity → Option Fault
  | any => Option.none
  | none => if given = 0 then Option.none else some (tooMany name 0 given)
  | one parameter =>
    if given = 0 then some (tooFew name parameter)
    else if given = 1 then Option.none
    else some (tooMany name 1 given)

end Arity

namespace Task

def every : List Task := [clean, lint, test, demo, all, run, remove, enlist, restart]

/-- The tasks that the usage lists. -/
def listed : List Task := [clean, lint, test, demo, all]

def name : Task → Text
  | clean => Text.ofString "clean"
  | lint => Text.ofString "lint_yaml"
  | test => Text.ofString "test"
  | .demo => Text.ofString "example"
  | all => Text.ofString "all"
  | run => Text.ofString "_run"
  | remove => Text.ofString "_rmtree"
  | enlist => Text.ofString "command"
  | restart => Text.ofString "main"

def ofName? (t : Text) : Option Task := every.find? fun task => task.name == t

def arity : Task → Arity
  | clean | lint | test | all | restart => .none
  | .demo | run => .any
  | remove => .one "path"
  | enlist => .one "fn"

end Task

namespace Project

/-- The command that runs an example with further words. -/
def exampleCommand (p : Project) (name : Text) (args : List Text) : Command where
  words :=
    p.interpreter :: ((p.place ["examples"]).join (.ofText (name ++ ".py"))).text :: args
  directory := some p.root
  assignments := [⟨"PYTHONPATH", p.root.text⟩]

/-- The example that is run unless another one is asked for. -/
def usualExample : Text := "line_sender_example"

def lint (p : Project) : Report := p.execute (p.script ["ci", "check_yaml.py"])

def test (p : Project) : Report := p.execute (p.script ["ci", "run_all_tests.py"])

/-- Runs words as a command in the directory of the project. -/
def run (words : List Text) (p : Project) : Report := p.execute ⟨words, some p.root, []⟩

/-- Runs an example, which the first word names. -/
def runExample (words : List Text) (p : Project) : Report :=
  match words with
  | [] => p.execute (p.exampleCommand usualExample [])
  | name :: args => p.execute (p.exampleCommand name args)

/-- The fault of asking a word for an attribute that words do not have. -/
def wordFault (wanted : String) : Fault where
  kind := .missingAttribute
  text := "'str' object has no attribute '" ++ Text.ofString wanted ++ Text.ofString "'"

/-- Does what a task asks for with words that it takes. -/
def act (words : List Text) (p : Project) : Task → Report
  | .clean => p.clean
  | .lint => p.lint
  | .test => p.test
  | .demo => p.runExample words
  | .all => (p.clean.andThen lint).andThen test
  | .run => p.run words
  | .remove => p.fails (wordFault "exists")
  | .enlist => p.fails (wordFault "__name__")
  | .restart =>
    p.fails (.of .tooDeep "maximum recursion depth exceeded while calling a Python object")

def perform (task : Task) (words : List Text) (p : Project) : Report :=
  match task.arity.fault? task.name words.length with
  | some fault => p.fails fault
  | none => p.act words task

/-- The names in the task file that stand for no action, by the type of what they stand for. -/
def things : List (String × List String) :=
  [("module",
      ["sys", "pathlib", "shutil", "shlex", "subprocess", "os", "__builtins__"]),
    ("list", ["COMMANDS"]),
    ("PosixPath", ["PROJ_ROOT"]),
    ("str", ["__file__", "__name__"]),
    ("NoneType", ["__doc__", "__package__", "__spec__", "__cached__"]),
    ("dict", ["__annotations__"]),
    ("SourceFileLoader", ["__loader__"])]

/-- The type of what a name stands for that stands for no action. -/
def thingType? (name : Text) : Option Text :=
  (things.find? fun t => t.2.any fun n => Text.ofString n == name).map (Text.ofString ·.1)

/-- The fault of asking for a name that stands for no task. -/
def taskFault (name : Text) : Fault :=
  match thingType? name with
  | some type => { kind := .wrongType, text := "'" ++ type ++ "' object is not callable" }
  | none => { kind := .missingKey, text := name.quoted }

def usage : Text :=
  "Usage: python3 proj.py <command>\nCommands:\n" ++
    Task.listed.flatMap (fun task => Text.ofString "  " ++ task.name ++ Text.ofString "\n") ++ "\n"

/-- Does what a command line asks for. -/
def commandLine (words : List Text) (p : Project) : Report :=
  match words with
  | [] => (p.logs usage).andThen (ends (.exited 0))
  | name :: words =>
    match Task.ofName? name with
    | some task => p.perform task words
    | none => p.fails (taskFault name)

end Project

end LineProtocol
