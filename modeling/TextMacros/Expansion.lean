import TextMacros.Invocation.Substitution

/-!
# Expansion

Invocations are replaced from left to right. Each replacement is expanded by
itself before the text goes on, with its macro guarded against a second
expansion inside; the guard is the same after every expansion as before it.
-/

set_option autoImplicit false

namespace TextMacros

/-- The names of the macros whose expansion is going on. -/
abbrev Guard := List Text

namespace Guard

def holds (g : Guard) (name : Text) : Bool := g.contains name

def enter? (g : Guard) (name : Text) : Option Guard :=
  if g.holds name then none else some (name :: g)

def leave (g : Guard) (name : Text) : Guard := g.filter fun n => n ≠ name

/-- A set of names, each of them once. -/
def ofNames (names : List Text) : Guard := names.eraseDups

def sorted (g : Guard) : List Text := g.mergeSort Text.le

end Guard

/-- The result of an expansion, and the guard that it leaves behind. -/
structure Expanded where
  result : Except Error (List Token)
  guard : Guard

namespace Expanded

def failed (e : Error) (g : Guard) : Expanded := ⟨.error e, g⟩

def prepend (front : List Token) (x : Expanded) : Expanded :=
  ⟨x.result.map (front ++ ·), x.guard⟩

end Expanded

/-- The invocation at a name, unless the name is guarded. -/
def invocation? (r : Registry) (g : Guard) (name : Token) (rest : List Token) :
    Except Error (Option Invocation) :=
  if name.kind = .identifier ∧ !g.holds name.text then Invocation.scan r name rest else .ok none

/-- Expands `ts` at a depth, of which none may exceed `limit`; `afterSplice`
tells that the first token has got a new neighbour on its left. -/
def expandFrom (r : Registry) (limit depth : Int) (g : Guard) (afterSplice : Bool) :
    List Token → Expanded
  | [] => ⟨.ok [], g⟩
  | t :: rest =>
    let placed := if afterSplice then t.detached else t
    match invocation? r g t rest with
    | .error e => .failed e g
    | .ok none => (expandFrom r limit depth g false rest).prepend [placed]
    | .ok (some i) =>
      let name := i.callee.name
      if limit < depth + 1 then .failed (.recursionLimit t.location name limit) g
      else match g.enter? name with
        | none => .failed (.reentered t.location name) g
        | some inner =>
          let nested := expandFrom r limit (depth + 1) inner false i.substitution
          let outer := nested.guard.leave name
          match nested.result with
          | .error e => .failed e outer
          | .ok body =>
            (expandFrom r limit depth outer true (rest.drop i.following)).prepend
              (respace placed.spaced body)
  termination_by ts => ((limit - depth).toNat, ts.length)
  decreasing_by
    · exact Prod.Lex.right _ (by simp)
    · exact Prod.Lex.left _ _ (by omega)
    · exact Prod.Lex.right _ (by simp only [List.length_cons, List.length_drop]; omega)

def expand (r : Registry) (limit depth : Int) (g : Guard) (ts : List Token) : Expanded :=
  expandFrom r limit depth g false ts

end TextMacros
