import TextMacros.Text.Basic

/-!
# Configuration

How deep expansions may nest, and whether directives in a text are obeyed.
Settings overwrite the fields first and are judged afterwards.
-/

set_option autoImplicit false

namespace TextMacros

structure Config where
  depth : Int := 200
  directives : Bool := false
  deriving DecidableEq, Repr

namespace Config

/-- The deepest nesting that may be asked for. -/
def reachableDepth : Int := 375

inductive Fault where
  | depthNotPositive (depth : Int)
  | depthUnreachable (depth : Int)
  deriving DecidableEq, Repr

def Fault.message : Fault → Text
  | depthNotPositive depth =>
    Text.join ["Maximal expansion depth must be positive, got ", Text.ofInt depth]
  | depthUnreachable depth =>
    Text.join ["Maximal expansion depth must not exceed ", Text.ofInt reachableDepth, ", got ",
      Text.ofInt depth,
      "\nDeeper expansion is bounded by Python recursion limit (`sys.setrecursionlimit`)."]

def fault? (c : Config) : Option Fault :=
  if c.depth < 1 then some (.depthNotPositive c.depth)
  else if reachableDepth < c.depth then some (.depthUnreachable c.depth)
  else none

inductive Setting where
  | number (value : Int)
  | flag (value : Bool)
  | unset
  deriving DecidableEq, Repr

abbrev Settings := List (Text × Setting)

/-- Setting names may share a first part, which an underscore ends. -/
def settingName (stem field : Text) : Text :=
  if stem.isEmpty then field else stem ++ CodePoint.underscore :: field

def merge (stem : Text) (settings : Settings) (c : Config) : Config :=
  let depth := match settings.lookup (settingName stem "max_expansion_depth") with
    | some (.number value) => value
    | _ => c.depth
  let directives := match settings.lookup (settingName stem "process_directives") with
    | some (.flag value) => value
    | _ => c.directives
  ⟨depth, directives⟩

end Config

end TextMacros
