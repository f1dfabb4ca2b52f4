import TextMacros.Macro.Signature
import TextMacros.Registry.Basic

/-!
# Directives

A line that begins with a hash and the word `define` or `undef` changes the
registry for the lines below it. A parenthesis opens a parameter list only if
it touches the name; otherwise it belongs to the body.
-/

set_option autoImplicit false

namespace TextMacros

structure Directive where
  isDefinition : Bool
  /-- The word that tells what to do. -/
  keyword : Token
  operands : List Token
  deriving DecidableEq, Repr

namespace Directive

def defineWord : Text := "define"

def undefineWord : Text := "undef"

def ofLine? : List Token → Option Directive
  | mark :: keyword :: rest =>
    if mark.kind = .punctuation ∧ mark.text = [CodePoint.hash] ∧ keyword.kind = .identifier then
      if keyword.text = defineWord then some ⟨true, keyword, withoutLayout rest⟩
      else if keyword.text = undefineWord then some ⟨false, keyword, withoutLayout rest⟩
      else none
    else none
  | _ => none

def nameToken (d : Directive) : Except Error (Token × List Token) :=
  match d.operands with
  | [] => .error (.missingName d.keyword.location)
  | name :: rest =>
    if name.kind = .identifier then .ok (name, rest)
    else .error (.nonIdentifierName name.location name.text)

/-- Whether the first token after a name opens a parameter list. -/
def opensParameters : List Token → Bool
  | [] => false
  | t :: _ => t.kind = .lparen && t.spaced ≠ some true

def definition (d : Directive) : Except Error Macro := do
  let (name, rest) ← d.nameToken
  if opensParameters rest then
    let (parameters, body) ← Signature.readParameters name.location name.text rest
    return ⟨name.text, some parameters, body, d.keyword.location⟩
  else return ⟨name.text, none, rest, d.keyword.location⟩

/-- Further words after a name that is to be erased are ignored. -/
def apply (d : Directive) (r : Registry) : Except Error (Registry × Option Redefinition) := do
  if d.isDefinition then
    r.define (← d.definition)
  else
    let (name, _) ← d.nameToken
    return (r.erase name.text, none)

end Directive

end TextMacros
