import TextMacros.Engine

/-!
# Workspaces

Several engines, each with a configuration of its own. Engines may share a
registry, which they know by its number. An expansion works on the registry
of its engine, or on a copy of it where directives may change it.
-/

set_option autoImplicit false

namespace TextMacros

structure Engine where
  registry : Nat
  config : Config
  deriving DecidableEq, Repr

structure Workspace where
  registries : List Registry
  engines : List Engine
  deriving DecidableEq, Repr

inductive Step where
  | define (name : Text) (parameters : Option (List Text)) (body : Text)
  | undefine (name : Text)
  | expand (input : Input)
  | configure (config : Config)
  | create (share : Bool) (config : Config)
  | lookup (name : Text)
  deriving DecidableEq, Repr

inductive Outcome where
  | defined (redefinition : Option Redefinition)
  | undefined
  | expanded (t : Text)
  | configured
  | created (engine : Nat)
  | found (m : Option Macro)
  deriving DecidableEq, Repr

/-- What a step answers; `count` is the size of its registry afterwards. -/
structure Answer where
  result : Except Failure Outcome
  redefinitions : List Redefinition
  count : Nat

namespace Workspace

def start (config : Config) : Workspace := ⟨[.empty], [⟨0, config⟩]⟩

def engine (w : Workspace) (number : Nat) : Engine := w.engines.getD number ⟨0, {}⟩

def registryAt (w : Workspace) (place : Nat) : Registry := w.registries.getD place .empty

def setRegistryAt (w : Workspace) (place : Nat) (r : Registry) : Workspace :=
  { w with registries := w.registries.set place r }

theorem setRegistryAt_self (w : Workspace) (place : Nat) :
    w.setRegistryAt place (w.registryAt place) = w := by
  have hself : w.registries.set place (w.registryAt place) = w.registries := by
    rw [registryAt, List.getD_eq_getElem?_getD]
    by_cases hp : place < w.registries.length
    · rw [List.getElem?_eq_getElem hp, Option.getD_some, List.set_getElem_self]
    · exact List.set_eq_of_length_le (Nat.le_of_not_lt hp)
  rw [setRegistryAt, hself]

def registryOf (w : Workspace) (number : Nat) : Registry := w.registryAt (w.engine number).registry

def setRegistryOf (w : Workspace) (number : Nat) (r : Registry) : Workspace :=
  w.setRegistryAt (w.engine number).registry r

/-- A new engine shares the registry of another one or begins an empty one. -/
def create (w : Workspace) (number : Nat) (share : Bool) (config : Config) : Workspace :=
  if share then { w with engines := w.engines ++ [⟨(w.engine number).registry, config⟩] }
  else ⟨w.registries ++ [.empty], w.engines ++ [⟨w.registries.length, config⟩]⟩

/-- Where an expansion finds its macros and leaves them. Nothing refers to a
copy once the expansion is over. -/
def workplace (w : Workspace) (e : Engine) : Workspace × Nat :=
  if e.config.directives then
    ({ w with registries := w.registries ++ [w.registryAt e.registry] }, w.registries.length)
  else (w, e.registry)

def expand (w : Workspace) (number : Nat) (input : Input) : Workspace × Report :=
  let e := w.engine number
  match e.config.fault? with
  | some fault => (w, ⟨.error (.config fault), []⟩)
  | none =>
    match input.decode with
    | .error e => (w, ⟨.error (.text e), []⟩)
    | .ok t =>
      let (w, place) := w.workplace e
      let p := process e.config (w.registryAt place) [] (lexText .text t)
      (w.setRegistryAt place p.registry, ⟨p.written.mapError .text, p.redefinitions⟩)

def answer (w : Workspace) (number : Nat) (result : Except Failure Outcome)
    (redefinitions : List Redefinition) : Workspace × Answer :=
  (w, ⟨result, redefinitions, (w.registryOf number).size⟩)

/-- One step of the engine with the given number. -/
def step (w : Workspace) (number : Nat) : Step → Workspace × Answer
  | .define name parameters body =>
    match (w.registryOf number).defineText name parameters body with
    | .error e => w.answer number (.error (.text e)) []
    | .ok (r, redefinition) =>
      (w.setRegistryOf number r).answer number (.ok (.defined redefinition)) redefinition.toList
  | .undefine name =>
    (w.setRegistryOf number ((w.registryOf number).erase name)).answer number (.ok .undefined) []
  | .expand input =>
    let (w, report) := w.expand number input
    w.answer number (report.result.map .expanded) report.redefinitions
  | .configure config =>
    { w with engines := w.engines.modify number fun e => { e with config := config } }.answer
      number (.ok .configured) []
  | .create share config =>
    (w.create number share config).answer number (.ok (.created w.engines.length)) []
  | .lookup name => w.answer number (.ok (.found ((w.registryOf number).lookup name))) []

/-- Steps one after the other, each with the number of its engine. -/
def run (w : Workspace) : List (Nat × Step) → Workspace × List Answer
  | [] => (w, [])
  | (number, s) :: rest =>
    let (w, a) := w.step number s
    let (w, answers) := run w rest
    (w, a :: answers)

end Workspace

end TextMacros
