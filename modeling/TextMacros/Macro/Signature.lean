import TextMacros.Macro.Basic

/-!
# Signatures

A signature is a name alone, or a name with a list of parameters between
parentheses, separated by single commas.
-/

set_option autoImplicit false

namespace TextMacros

structure Signature where
  name : Text
  parameters : Option (List Text)
  deriving DecidableEq, Repr

namespace Signature

/-- The parameter list of `name` ended without a closing parenthesis. -/
def unclosed (location : Location) (name : Text) : Error :=
  .invalidParameter location name [CodePoint.openParen]

/-- The parameters up to the closing parenthesis, where one must follow, and
the tokens after it. -/
def readNames (location : Location) (name : Text) :
    List Token → Except Error (List Text × List Token)
  | [] => .error (unclosed location name)
  | [t] =>
    if t.kind ≠ .identifier then .error (.invalidParameter t.location name t.text)
    else .error (unclosed location name)
  | t :: separator :: rest =>
    if t.kind ≠ .identifier then .error (.invalidParameter t.location name t.text)
    else if separator.kind = .rparen then .ok ([t.text], rest)
    else if separator.kind ≠ .comma then
      .error (.invalidParameter separator.location name separator.text)
    else (readNames location name rest).map fun (names, rest) => (t.text :: names, rest)

/-- The parameter list at the start of `ts`, which may be empty, and the tokens after it. -/
def readParameters (location : Location) (name : Text) (ts : List Token) :
    Except Error (List Text × List Token) :=
  match ts with
  | [] => .error (.nonIdentifierName location name)
  | opening :: rest =>
    if opening.kind ≠ .lparen then .error (.nonIdentifierName location name)
    else match rest with
      | [] => .error (unclosed location name)
      | t :: after => if t.kind = .rparen then .ok ([], after) else readNames location name rest

/-- The parameter list at a place in `ts`, and the place after it. -/
def parametersAt (location : Location) (name : Text) (ts : List Token) (index : Nat) :
    Except Error (List Text × Nat) :=
  (readParameters location name (ts.drop index)).map fun (names, rest) =>
    (names, ts.length - rest.length)

/-- Nothing may follow the parameter list. -/
def ofTokens (location : Location) (written : Text) : List Token → Except Error Signature
  | [] => .error (.missingName location)
  | t :: rest =>
    if t.kind ≠ .identifier then .error (.nonIdentifierName location written)
    else if rest.isEmpty then .ok ⟨t.text, none⟩
    else do
      let (names, leftover) ← readParameters location t.text rest
      if leftover.isEmpty then return ⟨t.text, some names⟩
      else throw (.nonIdentifierName location written)

def parse (location : Location) (written : Text) : Except Error Signature := do
  ofTokens location written (← lexBody location.source written)

end Signature

end TextMacros
