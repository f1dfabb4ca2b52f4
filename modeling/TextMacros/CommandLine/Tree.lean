import TextMacros.CommandLine.Path
import TextMacros.Text.Utf8

/-!
# Trees of files

The files and directories below the current directory. Nothing outside of it
can be reached, and a path goes on only through directories.
-/

set_option autoImplicit false

namespace TextMacros

structure Tree where
  files : List (List Text × Bytes)
  directories : List (List Text)

namespace Tree

/-- A directory is given by itself or by what lies below it. -/
def isDirectory (t : Tree) (place : List Text) : Bool :=
  t.directories.any (fun d => place.isPrefixOf d) ||
    t.files.any fun f => place.isPrefixOf f.1.dropLast

/-- Follows the components from a place, of which the innermost comes first. -/
def follow (t : Tree) : List Text → List Text → Option Bytes
  | _, [] => none
  | place, [last] =>
    if last = Path.parent then none else t.files.lookup (last :: place).reverse
  | place, c :: rest =>
    if c = Path.parent then
      match place with
      | [] => none
      | _ :: outer => t.follow outer rest
    else if t.isDirectory (c :: place).reverse then t.follow (c :: place) rest
    else none

/-- The content of the file to which a path leads, if it leads to one. -/
def read (t : Tree) (p : Path) : Option Bytes :=
  if p.root = [] then t.follow [] p.components else none

end Tree

end TextMacros
