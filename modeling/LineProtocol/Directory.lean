import LineProtocol.Path
/-!
# Directories

A directory is the sequence of its entries, each a plain file or a directory of
its own; what is added goes in front of entries with later names.  What is in
the files is of no concern here.

`Directory.at?` follows names downward, `Directory.resolve` follows them as an
operating system does, with the name of the parent leading upward and no name
looked up that is too long.
-/

namespace LineProtocol

/-- The entries of a directory. -/
inductive Directory where
  | empty
  /-- A plain file, in front of further entries. -/
  | file (name : Text) (rest : Directory)
  /-- A directory with its own entries, in front of further entries. -/
  | folder (name : Text) (content : Directory) (rest : Directory)
deriving DecidableEq, Repr

inductive Entry where
  | file
  | folder (content : Directory)
deriving DecidableEq, Repr

/-- Why names lead nowhere. -/
inductive DeadEnd where
  | missing
  /-- A name is too long to be looked up. -/
  | nameTooLong
deriving DecidableEq, Repr

namespace Entry

/-- The entry under a name, in front of further entries. -/
def before (name : Text) (rest : Directory) : Entry → Directory
  | file => .file name rest
  | folder content => .folder name content rest

/-- The entries of what stands under a name; a plain file has none. -/
def content : Option Entry → Directory
  | some (folder content) => content
  | _ => .empty

/-- What has become of an entry when one is added below it: a plain file stays what it is. -/
def grow (f : Directory → Directory) : Option Entry → Entry
  | some file => file
  | some (folder content) => folder (f content)
  | none => folder (f .empty)

end Entry

namespace Directory

def find? (name : Text) : Directory → Option Entry
  | empty => none
  | file n rest => if n = name then some .file else rest.find? name
  | folder n content rest => if n = name then some (.folder content) else rest.find? name

def names : Directory → List Text
  | empty => []
  | file n rest => n :: rest.names
  | folder n _ rest => n :: rest.names

/-- What the names lead to, downward from the directory. -/
def at? : List Text → Directory → Option Entry
  | [], d => some (.folder d)
  | name :: rest, d =>
    match d.find? name with
    | none => none
    | some .file => if rest.isEmpty then some .file else none
    | some (.folder content) => content.at? rest

/-- Whether the names lead anywhere. -/
def has (d : Directory) (place : List Text) : Bool := (d.at? place).isSome

/-- What the names lead to from `d`, which stands in the first of `parents`, that one in the
second, and so on.  The topmost directory is its own parent. -/
def resolve : (parents : List Directory) → Directory → List Text → Except DeadEnd Entry
  | _, d, [] => .ok (.folder d)
  | parents, d, name :: rest =>
    if name = Path.parent then
      match parents with
      | [] => resolve [] d rest
      | above :: parents => resolve parents above rest
    else if Path.maxNameSize < name.utf8.length then .error .nameTooLong
    else
      match d.find? name with
      | none => .error .missing
      | some .file => if rest.isEmpty then .ok .file else .error .missing
      | some (.folder content) => resolve (d :: parents) content rest

/-- The directory with what `f` makes of the entry with this name, or of its absence: then in front
of the first entry with a later name. -/
def update (name : Text) (f : Option Entry → Entry) : Directory → Directory
  | empty => (f none).before name empty
  | file n rest =>
    if n = name then (f (some .file)).before name rest
    else if name.le n && (rest.find? name).isNone then (f none).before name (file n rest)
    else file n (rest.update name f)
  | folder n content rest =>
    if n = name then (f (some (.folder content))).before name rest
    else if name.le n && (rest.find? name).isNone then (f none).before name (folder n content rest)
    else folder n content (rest.update name f)

/-- The directory with an entry added at the end of the names, and with the directories on the way
there.  What stands there already stays. -/
def add (entry : Entry) : List Text → Directory → Directory
  | [], d => d
  | [name], d => d.update name fun old => old.getD entry
  | name :: rest, d => d.update name (Entry.grow (add entry rest))

/-- The directory with these entries, and no others, where the names lead to.  Nothing but a
directory stands on the way there any more. -/
def put : List Text → (d entries : Directory) → Directory
  | [], _, entries => entries
  | name :: rest, d, entries =>
    d.update name fun old => .folder (put rest (Entry.content old) entries)

/-- Adds what a text names: a directory if a separator ends it, a plain file otherwise. -/
def addNamed (d : Directory) (t : Text) : Directory :=
  let entry := if t.getLast? = some Path.separator then .folder .empty else .file
  d.add entry (Path.readNames t)

/-- The directory that holds what the texts name. -/
def ofTexts (texts : List Text) : Directory := texts.foldl addNamed empty

/-- The paths of everything below the directory, after `above`; those of directories end in a
separator. -/
def texts (above : Text) : Directory → List Text
  | empty => []
  | file n rest => (above ++ n) :: rest.texts above
  | folder n content rest =>
    let here := above ++ n ++ [Path.separator]
    here :: (content.texts here ++ rest.texts above)

/-- The paths of everything below the directory, in ascending order. -/
def listing (d : Directory) : List Text := Text.sort (d.texts [])

/-- The directory with what `f` leaves of its own directory with this name. -/
def alter (name : Text) (f : Directory → Option Directory) : Directory → Directory
  | empty => empty
  | file n rest => file n (rest.alter name f)
  | folder n content rest =>
    if n = name then
      match f content with
      | some content => folder n content rest
      | none => rest
    else folder n content (rest.alter name f)

/-- The directory without the directory that the names lead to. -/
def without : List Text → Directory → Directory
  | [], d => d
  | [name], d => d.alter name fun _ => none
  | name :: rest, d => d.alter name fun content => some (content.without rest)

end Directory

end LineProtocol
