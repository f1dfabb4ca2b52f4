import TextMacros.Token.Stream

/-!
# Rendering

Tokens are written with at most one space between neighbours. Where nothing
is known about the space, one is written only if the two texts, glued
together, would be read as other tokens.
-/

set_option autoImplicit false

namespace TextMacros

namespace Token

def wouldMerge (left right : Token) : Except Error Bool := do
  match ← (lexText .text (left.text ++ right.text)).toExcept with
  | [a, b] => return !(a.alike left && b.alike right)
  | _ => return true

/-- Line breaks stand alone; elsewhere the spacing of the right token decides. -/
def needsSpace (left right : Token) : Except Error Bool :=
  if left.kind = .eol ∨ right.kind = .eol then .ok false
  else match right.spaced with
    | some spaced => .ok spaced
    | none => wouldMerge left right

end Token

def renderAfter (previous : Token) : List Token → Except Error Text
  | [] => .ok []
  | t :: ts => do
    let space ← previous.needsSpace t
    let rest ← renderAfter t ts
    return (if space then CodePoint.space :: t.text else t.text) ++ rest

def render : List Token → Except Error Text
  | [] => .ok []
  | t :: ts => do
    let rest ← renderAfter t ts
    return t.text ++ rest

end TextMacros
