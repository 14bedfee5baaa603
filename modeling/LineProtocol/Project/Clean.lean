import LineProtocol.Project
/-!
# Cleaning a project

Building, packaging and running leave directories behind: two at the top of the
project, those that describe a package there, and caches at any depth.
`Project.clean` removes them and nothing else.  A plain file under such a name
stays, although it is announced.

The project is looked through while directories are removed from it; a cache is
gone before the directory that it stood in is looked through.
-/

namespace LineProtocol

/-- The directories that building a project leaves at its top. -/
def Directory.buildNames : List Text := [Text.ofString "build", Text.ofString "dist"]

/-- Whether the name is that of the description of a package. -/
def Directory.isPackageInfo (name : Text) : Bool := (Text.ofString ".egg-info").isSuffixOf name

def Directory.cacheName : Text := "__pycache__"

/-- A directory that is being cleaned. -/
structure Cleanup where
  tree : Tree
  /-- The places whose removal has been announced, in this order. -/
  announced : List (List Text)

namespace Cleanup

/-- Announces the removal of what stands at a place, and removes it if it is a directory. -/
def remove (place : List Text) (c : Cleanup) : Cleanup :=
  if c.tree.top.has place then ⟨c.tree.without place, c.announced ++ [place]⟩ else c

/-- Removes entries of the directory that is being cleaned. -/
def removeTop (names : List Text) (c : Cleanup) : Cleanup :=
  names.foldl (fun c name => c.remove [name]) c

/-- Removes the caches below the directory at `here`, whose entries are listed, from each directory
before it is looked through.  A directory that has gone is passed over. -/
def sweepBelow (here : List Text) : (entries : Directory) → Cleanup → Cleanup
  | .empty, c => c
  | .file _ rest, c => sweepBelow here rest c
  | .folder name content rest, c =>
    let below := here ++ [name]
    let c :=
      if c.tree.top.has below then
        sweepBelow below content (c.remove (below ++ [Directory.cacheName]))
      else c
    sweepBelow here rest c

/-- Removes all caches. -/
def sweep (c : Cleanup) : Cleanup :=
  let c := c.remove [Directory.cacheName]
  c.sweepBelow [] c.tree.top

end Cleanup

/-- Removes what building, packaging and running left in the tree. -/
def Tree.cleanup (t : Tree) : Cleanup :=
  let c := Cleanup.removeTop Directory.buildNames ⟨t, []⟩
  (c.removeTop (c.tree.top.names.filter Directory.isPackageInfo)).sweep

namespace Project

/-- Announces the removal of what stands at a path. -/
def removal (path : Path) : Text := "[RMTREE] " ++ path.text ++ "\n"

def clean (p : Project) : Report :=
  let c := p.tree.cleanup
  { p with tree := c.tree }.logs
    (c.announced.flatMap fun place => removal (p.root.join ⟨.here, place⟩))

end Project

end LineProtocol
