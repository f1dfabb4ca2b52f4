import TextMacros.Macro.Basic

/-!
# Registries

A registry holds at most one macro of each name. The last definition of a
name wins, and a definition that fails changes nothing.
-/

set_option autoImplicit false

namespace TextMacros

/-- A body as it is given: tokens, or text that has to be read first. -/
inductive Body where
  | tokens (ts : List Token)
  | text (source : Source) (t : Text)
  deriving DecidableEq, Repr

def Body.read : Body → Except Error (List Token)
  | tokens ts => .ok ts
  | text source t => lexBody source t

structure Registry where
  macros : List Macro
  deriving DecidableEq, Repr

namespace Registry

def empty : Registry := ⟨[]⟩

def lookup (r : Registry) (name : Text) : Option Macro := r.macros.find? fun m => m.name = name

def erase (r : Registry) (name : Text) : Registry :=
  ⟨r.macros.filter fun m => m.name ≠ name⟩

def insert (r : Registry) (m : Macro) : Registry := ⟨m :: (r.erase m.name).macros⟩

@[simp] theorem lookup_empty (name : Text) : empty.lookup name = none := rfl

theorem name_of_lookup {r : Registry} {name : Text} {m : Macro} (h : r.lookup name = some m) :
    m.name = name := by
  simpa using List.find?_some h

/-- What holds of all macros of a registry holds of each that is found. -/
theorem forall_lookup {r : Registry} {P : Macro → Prop} (h : ∀ m ∈ r.macros, P m) (name : Text)
    (m : Macro) (hm : r.lookup name = some m) : P m :=
  h m (List.mem_of_find?_eq_some hm)

theorem lookup_erase (r : Registry) (erased name : Text) :
    (r.erase erased).lookup name = if name = erased then none else r.lookup name := by
  simp only [lookup, erase, List.find?_filter]
  split
  · simp_all
  · congr 1
    grind

theorem lookup_insert (r : Registry) (m : Macro) (name : Text) :
    (r.insert m).lookup name = if m.name = name then some m else r.lookup name := by
  have h := lookup_erase r m.name name
  simp only [lookup] at h ⊢
  simp only [insert, List.find?_cons]
  split <;> simp_all [eq_comm]

def size (r : Registry) : Nat := r.macros.length

/-- The macros in the order of their names. -/
def sorted (r : Registry) : List Macro := r.macros.mergeSort fun a b => a.name.le b.name

def names (r : Registry) : List Text := r.sorted.map Macro.name

/-- Reported when `m` takes the place of another definition. -/
def redefinition (r : Registry) (m : Macro) : Option Redefinition :=
  match r.lookup m.name with
  | none => none
  | some replaced => if replaced.sameDefinition m then none else some ⟨replaced, m⟩

def define (r : Registry) (m : Macro) : Except Error (Registry × Option Redefinition) := do
  m.check
  return (r.insert m, r.redefinition m)

/-- The body is read before the name and the parameters are judged. -/
def defineBody (r : Registry) (name : Text) (parameters : Option (List Text)) (body : Body)
    (location : Location) : Except Error (Registry × Option Redefinition) := do
  r.define ⟨name, parameters, ← body.read, location⟩

end Registry

end TextMacros
