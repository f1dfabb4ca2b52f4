import TextMacros.Invocation.Basic

/-!
# Substitution

Each parameter in a body is replaced by the whole raw argument. Replacement
is simultaneous: what an argument holds is not looked at again.
-/

set_option autoImplicit false

namespace TextMacros

/-- What stands in the place of a token takes over the space before it. -/
def respace (spaced : Option Bool) : List Token → List Token
  | [] => []
  | t :: ts => t.withSpacing spaced :: ts

abbrev Bindings := List (Text × List Token)

def Bindings.argument? (bs : Bindings) (t : Token) : Option (List Token) :=
  if t.kind = .identifier then bs.lookup t.text else none

/-- The token after an argument, even an empty one, has got a new neighbour. -/
def substitute (bs : Bindings) (afterArgument : Bool) : List Token → List Token
  | [] => []
  | t :: ts =>
    match bs.argument? t with
    | none => (if afterArgument then t.detached else t) :: substitute bs false ts
    | some argument => respace t.spaced argument ++ substitute bs true ts

/-- The body with the arguments in the place of the parameters. -/
def Invocation.substitution (i : Invocation) : List Token :=
  match i.callee.parameters with
  | none => i.callee.body
  | some parameters => substitute (parameters.zip (i.arguments.getD [])) false i.callee.body

end TextMacros
