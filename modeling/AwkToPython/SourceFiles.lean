import AwkToPython.FileTree

/-!
# Source files

A file is loaded at most once and in one of two ways: as a source, which may not
be repeated, or as an include, which may. Files are told apart by where their
paths lead to, and paths that lead nowhere by their components.
-/
namespace AwkToPython

inductive Identity where
  | located (location : Location)
  | unlocated (components : List String)
deriving DecidableEq, Repr

def FileTree.identity (tree : FileTree) (path : String) : Identity :=
  match tree.resolve path with
  | .ok location => .located location
  | .error _ => .unlocated (Path.components path)

structure Library where
  tree : FileTree := {}
  searchPath : List String := []
deriving DecidableEq, Repr

/-- The path of a name: the name itself if it leads somewhere or is absolute,
else the first directory of the search path that has it, else the name. -/
def Library.locate (library : Library) (name : String) : String :=
  if library.tree.contains name || Path.isAbsolute name then name
  else ((library.searchPath.map (Path.join · name)).find? library.tree.contains).getD name

structure SourceFiles where
  sources : List Identity := []
  includes : List Identity := []
deriving DecidableEq, Repr

namespace SourceFiles

def addSource (files : SourceFiles) (tree : FileTree) (path : String) :
    Except Error SourceFiles :=
  let identity := tree.identity path
  if files.includes.contains identity then .error (.conflict (.sourceIncluded path))
  else if files.sources.contains identity then .error (.conflict (.sourceRepeated path))
  else .ok { files with sources := files.sources ++ [identity] }

/-- The result is `none` for a file that is already included. -/
def addInclude (files : SourceFiles) (tree : FileTree) (path : String) :
    Except Error (Option SourceFiles) :=
  let identity := tree.identity path
  if files.sources.contains identity then .error (.conflict (.includeIsSource path))
  else if files.includes.contains identity then .ok none
  else .ok (some { files with includes := files.includes ++ [identity] })

end SourceFiles

end AwkToPython
