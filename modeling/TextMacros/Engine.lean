import TextMacros.Decoding
import TextMacros.Processing
import TextMacros.Token.Rendering

/-!
# Expanding texts

An expansion reads a registry and never changes it: directives in a text act
on a copy that ends with the text. The configuration is judged before the
text is looked at.
-/

set_option autoImplicit false

namespace TextMacros

inductive Failure where
  | config (fault : Config.Fault)
  | text (error : Error)
  deriving DecidableEq, Repr

/-- The expanded text, and the redefinitions met on the way, failure or not. -/
structure Report where
  result : Except Failure Text
  redefinitions : List Redefinition

/-- Tokens are written as they come, before a failure further down is met. -/
def Processed.written (p : Processed) : Except Error Text := do
  let text ← render p.tokens
  match p.failure with
  | some e => throw e
  | none => return text

def expandInput (r : Registry) (c : Config) (input : Input) : Report :=
  match c.fault? with
  | some fault => ⟨.error (.config fault), []⟩
  | none =>
    match input.decode with
    | .error e => ⟨.error (.text e), []⟩
    | .ok t =>
      let p := process c r [] (lexText .text t)
      ⟨p.written.mapError .text, p.redefinitions⟩

/-- A definition given as text has no other place than itself. -/
def Registry.defineText (r : Registry) (name : Text) (parameters : Option (List Text))
    (body : Text) : Except Error (Registry × Option Redefinition) :=
  r.defineBody name parameters (.text .definition body) Location.definition

end TextMacros
