import TextMacros.Directive
import TextMacros.Registry.Raw

/-!
# Shelves of registries

Registries that came out of one another, one of them current. A step that
fails leaves the shelf as it was.
-/

set_option autoImplicit false

namespace TextMacros

structure Shelf where
  registries : List Registry
  current : Nat
  deriving DecidableEq, Repr

namespace Shelf

inductive Step where
  | define (name : Text) (parameters : Option (List Text)) (body : Body) (location : Location)
  | undefine (name : Text)
  | obey (d : Directive)
  | copy
  | use (number : Nat)
  | readRaw (location : Location) (ds : RawDefinitions)
  deriving DecidableEq, Repr

inductive Fault where
  | error (e : Error)
  | misuse (m : Misuse)
  deriving DecidableEq, Repr

def start : Shelf := ⟨[.empty], 0⟩

def registry (s : Shelf) : Registry := s.registries.getD s.current .empty

def replace (s : Shelf) (r : Registry) : Shelf :=
  { s with registries := s.registries.set s.current r }

/-- A registry that is put on the shelf becomes current. -/
def add (s : Shelf) (r : Registry) : Shelf := ⟨s.registries ++ [r], s.registries.length⟩

def redefine (s : Shelf) (x : Except Error (Registry × Option Redefinition)) :
    Except Fault (Shelf × Option Redefinition) :=
  match x with
  | .error e => .error (.error e)
  | .ok (r, redefinition) => .ok (s.replace r, redefinition)

def step (s : Shelf) : Step → Except Fault (Shelf × Option Redefinition)
  | .define name parameters body location =>
    s.redefine (s.registry.defineBody name parameters body location)
  | .undefine name => .ok (s.replace (s.registry.erase name), none)
  | .obey d => s.redefine (d.apply s.registry)
  | .copy => .ok (s.add s.registry, none)
  | .use number => .ok ({ s with current := number }, none)
  | .readRaw location ds =>
    match Registry.ofRawAt location ds with
    | .error m => .error (.misuse m)
    | .ok (.error e) => .error (.error e)
    | .ok (.ok r) => .ok (s.add r, none)

/-- The shelf after a step, and what the step answers. -/
def perform (s : Shelf) (step : Step) : Shelf × Except Fault (Option Redefinition) :=
  match s.step step with
  | .error f => (s, .error f)
  | .ok (next, redefinition) => (next, .ok redefinition)

/-- All steps are made, whether those before them failed or not. -/
def run (s : Shelf) (steps : List Step) : Shelf :=
  steps.foldl (fun s step => (s.perform step).1) s

end Shelf

end TextMacros
