import TextMacros.Misuse
import TextMacros.Registry.Basic

/-!
# Invocations

A macro is invoked by its name, and one with parameters only if an opening
parenthesis follows, on the same line or a later one. Arguments are raw
tokens, split at the commas of their own depth.
-/

set_option autoImplicit false

namespace TextMacros

/-- What stands between the parentheses; `length` counts the tokens from the
opening parenthesis on, with the closing one and without the opening one. -/
structure ArgumentList where
  first : List Token
  others : List (List Token)
  length : Nat
  deriving DecidableEq, Repr

namespace ArgumentList

def toList (a : ArgumentList) : List (List Token) := a.first :: a.others

def closed : ArgumentList := ⟨[], [], 1⟩

def keep (t : Token) (a : ArgumentList) : ArgumentList := ⟨t :: a.first, a.others, a.length + 1⟩

def skip (a : ArgumentList) : ArgumentList := { a with length := a.length + 1 }

def split (a : ArgumentList) : ArgumentList := ⟨[], a.first :: a.others, a.length + 1⟩

/-- The arguments that begin `ts`, inside of `depth` further parentheses. -/
def read (depth : Nat) : List Token → Option ArgumentList
  | [] => none
  | t :: ts =>
    match t.kind, depth with
    | .rparen, 0 => some closed
    | .rparen, d + 1 => (read d ts).map (keep t)
    | .lparen, d => (read (d + 1) ts).map (keep t)
    | .comma, 0 => (read 0 ts).map split
    | .eol, d => (read d ts).map skip
    | .comment, d => (read d ts).map skip
    | _, d => (read d ts).map (keep t)

end ArgumentList

structure Invocation where
  callee : Macro
  arguments : Option (List (List Token))
  /-- The number of tokens after the name that belong to the invocation. -/
  following : Nat
  deriving DecidableEq, Repr

namespace Invocation

def objectLike (callee : Macro) : Invocation := ⟨callee, none, 0⟩

/-- Empty parentheses hold one empty argument, or none where none is expected. -/
def fitArguments (expected : Nat) (arguments : List (List Token)) : List (List Token) :=
  if expected = 0 ∧ arguments = [[]] then [] else arguments

/-- The invocation that the opening parenthesis before `inner` begins. -/
def call (callee : Macro) (parameters : List Text) (name : Token) (breaks : Nat)
    (inner : List Token) : Except Error Invocation :=
  match ArgumentList.read 0 inner with
  | none => .error (.unterminatedInvocation name.location name.text)
  | some list =>
    let arguments := fitArguments parameters.length list.toList
    if arguments.length = parameters.length then
      .ok ⟨callee, some arguments, breaks + 1 + list.length⟩
    else
      .error (.argumentCount name.location callee.name parameters.length arguments.length)

/-- The invocation at the token `name`, before which nothing matters. -/
def scan (r : Registry) (name : Token) (rest : List Token) : Except Error (Option Invocation) :=
  if name.kind ≠ .identifier then .ok none
  else match r.lookup name.text with
    | none => .ok none
    | some callee =>
      match callee.parameters with
      | none => .ok (some (objectLike callee))
      | some parameters =>
        let breaks := (rest.takeWhile fun t => t.kind = .eol).length
        match rest.drop breaks with
        | [] => .ok none
        | opening :: inner =>
          if opening.kind ≠ .lparen then .ok none
          else (call callee parameters name breaks inner).map some

/-- Where the invocation ends that begins at a place. -/
def finish (i : Invocation) (start : Nat) : Nat := start + 1 + i.following

end Invocation

/-- An invocation in a list of tokens, of which it takes those from `start` up
to `finish`. -/
structure Occurrence where
  invocation : Invocation
  start : Nat
  finish : Nat
  deriving DecidableEq, Repr

namespace Invocation

def occurrence (start : Nat) (i : Invocation) : Occurrence := ⟨i, start, i.finish start⟩

/-- The invocation at a place in a list of tokens. -/
def scanAt (r : Registry) (ts : List Token) (index : Nat) :
    Except Misuse (Except Error (Option Occurrence)) :=
  match ts.drop index with
  | [] => .error .indexOutsideTokens
  | name :: rest => .ok ((scan r name rest).map fun found => found.map (occurrence index))

end Invocation

end TextMacros
