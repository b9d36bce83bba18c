import TapeMachine.Stream.Failure

/-!
# Files

The command sees the part of the file system that its arguments can name.

## Main definitions

* `TapeMachine.FileTree` — directories and files with their contents.
* `TapeMachine.FileTree.read` — the contents that a path leads to.
-/

set_option autoImplicit false

namespace TapeMachine

/-- A file or a directory. -/
inductive FileNode
  /-- A directory. -/
  | directory
  /-- A file with its contents. -/
  | file (contents : List UInt8)
deriving DecidableEq, Repr

/-- A part of the file system. -/
structure FileTree where
  /-- What stands at which place; a place is the list of the names that lead to it from the
  root. -/
  nodes : List (List String × FileNode)
  /-- The place at which relative paths begin. -/
  workingDirectory : List String

namespace FileTree

/-- What stands at a place. -/
def node? (tree : FileTree) (place : List String) : Option FileNode :=
  if place.isEmpty then some .directory else tree.nodes.lookup place

/-- Follows names from a directory on. -/
def follow (tree : FileTree) (place : List String) : List String → Except IoError FileNode
  | [] => .ok .directory
  | name :: rest =>
    if name = "" ∨ name = "." then tree.follow place rest
    else if name = ".." then tree.follow place.dropLast rest
    else if 255 < name.utf8ByteSize then .error .nameTooLong
    else
      match tree.node? (place ++ [name]) with
      | none => .error .notFound
      | some .directory => tree.follow (place ++ [name]) rest
      | some (.file contents) =>
        if rest.isEmpty then .ok (.file contents) else .error .notDirectory

/-- The contents of the file that a path leads to. -/
def read (tree : FileTree) (path : String) : Except IoError (List UInt8) :=
  if 4095 < path.utf8ByteSize then .error .nameTooLong
  else
    let start := if path.startsWith "/" then [] else tree.workingDirectory
    match tree.follow start (path.splitOn "/") with
    | .error cause => .error cause
    | .ok .directory => .error .isDirectory
    | .ok (.file contents) => .ok contents

end FileTree

end TapeMachine
