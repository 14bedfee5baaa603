import LineProtocol.Text.Encoding
/-!
# Paths

A path is the list of names it goes through.  Empty names and names for the
place itself say nothing and are left out; the name of the parent stays, for
what it leads to depends on what stands in the tree.
-/

namespace LineProtocol

/-- What a path starts from. -/
inductive Path.Start where
  /-- From the path that it is joined to. -/
  | here
  | root
  /-- A root written with exactly two separators, which is kept apart. -/
  | doubleRoot
deriving DecidableEq, Repr

/-- The names of places, each within the one before. -/
structure Path where
  start : Path.Start
  names : List Text
deriving DecidableEq, Repr

namespace Path

def separator : CodePoint := ⟨0x2F, by decide⟩

/-- The name by which every directory knows itself. -/
def self : Text := "."

/-- The name by which every directory knows the one that it stands in. -/
def parent : Text := ".."

/-- The names in a text, those that say nothing left out. -/
def readNames (t : Text) : List Text :=
  (t.split separator).filter fun name => !name.isEmpty && name != self

/-- The most bytes that a name may have. -/
def maxNameSize : Nat := 255

/-- The most bytes that a whole path may have. -/
def maxSize : Nat := 4095

/-- What a text starts from, by the number of separators in front. -/
def readStart (t : Text) : Start :=
  match (t.takeWhile (· == separator)).length with
  | 0 => .here
  | 2 => .doubleRoot
  | _ => .root

def ofText (t : Text) : Path := ⟨readStart t, readNames t⟩

/-- A path seen from another one; one that starts from a root stands for itself. -/
def join (p q : Path) : Path :=
  match q.start with
  | .here => ⟨p.start, p.names ++ q.names⟩
  | _ => q

/-- The place with the given name at the end of the path. -/
def child (p : Path) (name : Text) : Path := ⟨p.start, p.names ++ [name]⟩

def text (p : Path) : Text :=
  match p.start, p.names with
  | .here, [] => self
  | .here, names => Text.join [separator] names
  | .root, names => separator :: Text.join [separator] names
  | .doubleRoot, names => separator :: separator :: Text.join [separator] names

/-- Whether an operating system can be told the path: as bytes, none of which is zero. -/
def isNameable (p : Path) : Bool :=
  !p.text.any fun c : CodePoint => c.val == 0 || decide c.IsSurrogate

example : (ofText "///a//./b/").text = Text.ofString "/a/b" := by decide

example : ((ofText "/a").join (ofText "../b")).text = Text.ofString "/a/../b" := by decide

end Path

end LineProtocol
