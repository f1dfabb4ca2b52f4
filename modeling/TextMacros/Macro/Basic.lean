import TextMacros.Token.Stream

/-!
# Macros

A macro replaces its name, or its name with a list of arguments, by a body.
Line breaks and comments never belong to a body.
-/

set_option autoImplicit false

namespace TextMacros

structure Macro where
  name : Text
  parameters : Option (List Text)
  body : List Token
  location : Location
  deriving DecidableEq, Repr

/-- The tokens of a definition, with its layout left out. -/
def withoutLayout (ts : List Token) : List Token := ts.filter fun t => !t.isLayout

theorem withoutLayout_drop {t : Token} (h : t.isLayout = true) (ts : List Token) :
    withoutLayout (t :: ts) = withoutLayout ts := by
  simp [withoutLayout, h]

theorem withoutLayout_keep {t : Token} (h : t.isLayout = false) (ts : List Token) :
    withoutLayout (t :: ts) = t :: withoutLayout ts := by
  simp [withoutLayout, h]

def lexBody (source : Source) (t : Text) : Except Error (List Token) :=
  (lexText source t).toExcept.map withoutLayout

namespace Macro

/-- What counts of a body token when two bodies are compared. -/
def shape (t : Token) : TokenKind × Text × Bool := (t.kind, t.text, decide (t.spaced = some true))

/-- Space before the first token does not belong to the body. -/
def bodyShape : List Token → List (TokenKind × Text × Bool)
  | [] => []
  | t :: ts => (t.kind, t.text, false) :: ts.map shape

/-- Same parameters and the same body with the same spacing inside. -/
def sameDefinition (a b : Macro) : Bool :=
  a.parameters = b.parameters && bodyShape a.body = bodyShape b.body

/-- The name and the parameters must be identifiers, and no two parameters
may be equal; `seen` holds the parameters already accepted. -/
def checkParameters (m : Macro) (seen : List Text) : List Text → Except Error Unit
  | [] => .ok ()
  | p :: ps =>
    if !p.isIdentifier then .error (.invalidParameter m.location m.name p)
    else if p ∈ seen then .error (.duplicateParameter m.location m.name p)
    else m.checkParameters (p :: seen) ps

def check (m : Macro) : Except Error Unit :=
  if !m.name.isIdentifier then .error (.nonIdentifierName m.location m.name)
  else m.checkParameters [] (m.parameters.getD [])

end Macro

/-- A definition that replaced another one with a different body. -/
structure Redefinition where
  replaced : Macro
  replacement : Macro
  deriving DecidableEq, Repr

def Redefinition.message (r : Redefinition) : Text :=
  Text.join ["Redefinition of an macro '", r.replacement.name, "' at ",
    r.replacement.location.describe, " with different body.\nOriginal definition found at ",
    r.replaced.location.describe,
    ", it is now overridden.\nIf it is desired scenario of overriding, please un-define before redefinition."]

end TextMacros
