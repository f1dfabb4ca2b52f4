import TextMacros.Error
import TextMacros.Text.Template

/-!
# Breakdowns of a run

A run breaks down when it needs a text or a number where a switch was given
none, or when its usage cannot be written. Nothing tells the user of it.
-/

set_option autoImplicit false

namespace TextMacros

inductive Breakdown where
  | usage (f : Template.Fault)
  | noDefinition
  | noUndefinition
  | noDepth
  deriving DecidableEq, Repr

def Breakdown.message : Breakdown → Text
  | usage f => f.message
  | noDefinition => "unhashable type: 'list'"
  | noUndefinition => "unhashable type: 'list'"
  | noDepth => "'<' not supported between instances of 'list' and 'int'"

/-- What a run passes on to its caller as it is. -/
inductive Escape where
  | error (e : Error)
  | breakdown (b : Breakdown)
  deriving DecidableEq, Repr

def Escape.message : Escape → Text
  | error e => e.message
  | breakdown b => b.message

end TextMacros
