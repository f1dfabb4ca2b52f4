import TextMacros.Text.Basic
import TextMacros.Text.Cut

/-!
# Paths

A path is written without empty components and without single dots. Two
leading slashes stay two; any other number of them is one.
-/

set_option autoImplicit false

namespace TextMacros

structure Path where
  root : Text
  components : List Text
  deriving DecidableEq, Repr

namespace Path

def isSlash (c : CodePoint) : Bool := c = CodePoint.slash

def rootOf (t : Text) : Text :=
  match (t.takeWhile isSlash).length with
  | 0 => []
  | 2 => [CodePoint.slash, CodePoint.slash]
  | _ => [CodePoint.slash]

def split (t : Text) : List Text :=
  (cutAfter (fun c _ => isSlash c) t).map fun piece => piece.filter fun c => !isSlash c

def ofText (t : Text) : Path :=
  ⟨rootOf t, (split t).filter fun c => c ≠ [] ∧ c ≠ [CodePoint.dot]⟩

def joinComponents : List Text → Text
  | [] => []
  | [c] => c
  | c :: rest => c ++ CodePoint.slash :: joinComponents rest

/-- The empty path is the current directory. -/
def toText (p : Path) : Text :=
  if p.root = [] ∧ p.components = [] then [CodePoint.dot]
  else p.root ++ joinComponents p.components

/-- The last component, empty if there is none. -/
def name (p : Path) : Text := p.components.getLastD []

def parent : Text := [CodePoint.dot, CodePoint.dot]

end Path

end TextMacros
