import Mathlib.Data.List.Forall2
import TextMacros.Proofs.Signatures
import TextMacros.Registry.Raw

/-!
# Changes of registries

Whatever is done to a registry is a change that does not depend on the registry:
a macro that has passed the check is defined, or a name is removed. Such
changes keep a registry sound, and the last one of a name decides what is
found under it.
-/

set_option autoImplicit false

namespace TextMacros

theorem getLast?_filter_append {α : Type} (p : α → Bool) (as : List α) (a : α) :
    ((as ++ [a]).filter p).getLast? = if p a then some a else (as.filter p).getLast? := by
  split
  · next h => simp [List.filter_append, h]
  · next h => simp [List.filter_append, h]

/-! ### Sound registries -/

/-- Every name is a key once, and an identifier with parameters that are
identifiers, none of them twice. -/
structure Registry.Sound (r : Registry) : Prop where
  distinct : (r.macros.map Macro.name).Nodup
  valid : ∀ name m, r.lookup name = some m → m.name = name ∧ m.signature.Valid

namespace Registry.Sound
variable {r : Registry}

theorem empty : Registry.empty.Sound := ⟨by simp [Registry.empty], by simp⟩

theorem erase (h : r.Sound) (name : Text) : (r.erase name).Sound where
  distinct := h.distinct.sublist (List.filter_sublist.map _)
  valid := by
    intro other m hm
    rw [lookup_erase] at hm
    split at hm
    · cases hm
    · exact h.valid other m hm

theorem insert (h : r.Sound) {m : Macro} (hm : m.signature.Valid) : (r.insert m).Sound where
  distinct := by
    simp only [Registry.insert, List.map_cons, List.nodup_cons]
    refine ⟨?_, (h.erase m.name).distinct⟩
    simp [Registry.erase]
  valid := by
    intro name n hn
    rw [lookup_insert] at hn
    split at hn
    · next hname =>
      cases hn
      exact ⟨hname, hm⟩
    · exact h.valid name n hn

end Registry.Sound

/-! ### Changes -/

inductive Change where
  | definition (m : Macro)
  | removal (name : Text)
  deriving DecidableEq, Repr

namespace Change

def name : Change → Text
  | definition m => m.name
  | removal name => name

def macro? : Change → Option Macro
  | definition m => some m
  | removal _ => none

/-- What is left of a name after changes: the last one that concerns it decides. -/
def standing (changes : List Change) (name : Text) : Option Macro :=
  (changes.filter fun c => c.name = name).getLast?.bind macro?

theorem standing_append (changes : List Change) (c : Change) (name : Text) :
    standing (changes ++ [c]) name = if c.name = name then c.macro? else standing changes name := by
  rw [standing, getLast?_filter_append, apply_ite (Option.bind · macro?)]
  simp only [decide_eq_true_eq, Option.bind_some, standing]

end Change

namespace Registry

def amend (r : Registry) : Change → Registry
  | .definition m => r.insert m
  | .removal name => r.erase name

/-- A removal reports nothing. -/
def report (r : Registry) : Change → Option Redefinition
  | .definition m => r.redefinition m
  | .removal _ => none

theorem lookup_amend (r : Registry) (c : Change) (name : Text) :
    (r.amend c).lookup name = if c.name = name then c.macro? else r.lookup name := by
  cases c with
  | definition m => exact lookup_insert r m name
  | removal erased =>
    rw [amend, lookup_erase]
    simp only [Change.name, Change.macro?, eq_comm]

end Registry

theorem redefinition_eq_some {r : Registry} {m : Macro} {report : Redefinition} :
    r.redefinition m = some report ↔ report.replacement = m ∧
      r.lookup m.name = some report.replaced ∧ report.replaced.sameDefinition m = false := by
  obtain ⟨replaced, replacement⟩ := report
  rw [Registry.redefinition]
  split
  · next h => simp [h]
  · next other h =>
    simp only [h, Option.some.injEq]
    split
    · next hsame =>
      simp only [reduceCtorEq, false_iff, not_and]
      rintro - rfl
      simp [hsame]
    · next hsame =>
      simp only [Option.some.injEq, Redefinition.mk.injEq, eq_comm]
      constructor
      · rintro ⟨rfl, rfl⟩
        exact ⟨rfl, rfl, by simpa using hsame⟩
      · rintro ⟨rfl, rfl, -⟩
        exact ⟨rfl, rfl⟩

/-- The macro, if it passes the check. -/
def Macro.checked (m : Macro) : Except Error Macro := m.check.map fun _ => m

theorem Macro.checked_eq_ok {m n : Macro} : m.checked = .ok n ↔ m.signature.Valid ∧ m = n := by
  rw [checked, ← check_eq_ok]
  cases m.check <;> simp [Except.map]

/-! ### What the operations do -/

def Directive.change (d : Directive) : Except Error Change :=
  if d.isDefinition then do
    let m ← (← d.definition).checked
    return .definition m
  else do
    let (name, _) ← d.nameToken
    return .removal name.text

/-- The macro that is given by its parts. -/
def givenMacro (name : Text) (parameters : Option (List Text)) (body : Body)
    (location : Location) : Except Error Macro := do
  Macro.checked ⟨name, parameters, ← body.read, location⟩

/-- The macro that a pair of written texts defines. -/
def rawMacro (location : Location) (signature body : Text) : Except Error Macro := do
  let s ← Signature.parse location signature
  givenMacro s.name s.parameters (.text location.source body) location

theorem define_eq (r : Registry) (m : Macro) :
    r.define m = m.checked.map fun m => (r.insert m, r.redefinition m) := by
  rw [Registry.define, Macro.checked]
  cases m.check <;> rfl

theorem defineBody_eq (r : Registry) (name : Text) (parameters : Option (List Text)) (body : Body)
    (location : Location) : r.defineBody name parameters body location =
      (givenMacro name parameters body location).map fun m => (r.insert m, r.redefinition m) := by
  rw [Registry.defineBody, givenMacro]
  cases body.read with
  | error e => rfl
  | ok ts => exact define_eq r _

theorem apply_eq (d : Directive) (r : Registry) :
    d.apply r = d.change.map fun c => (r.amend c, r.report c) := by
  rw [Directive.apply, Directive.change]
  by_cases hd : d.isDefinition
  · rw [if_pos hd, if_pos hd]
    cases d.definition with
    | error e => rfl
    | ok m =>
      show r.define m = _
      rw [define_eq]
      cases hm : m.checked <;> simp [bind, Except.bind, hm, Except.map, pure, Except.pure,
        Registry.amend, Registry.report]
  · rw [if_neg hd, if_neg hd]
    cases d.nameToken <;> rfl

theorem defineRaw_eq (r : Registry) (location : Location) (signature body : Text) :
    r.defineRaw location signature body = (rawMacro location signature body).map r.insert := by
  rw [Registry.defineRaw, rawMacro]
  cases Signature.parse location signature with
  | error e => rfl
  | ok s =>
    simp only [bind, Except.bind, defineBody_eq]
    cases givenMacro s.name s.parameters (.text location.source body) location <;> rfl

theorem mapM_eq_ok {ε α β : Type} {f : α → Except ε β} {as : List α} {bs : List β} :
    as.mapM f = .ok bs ↔ List.Forall₂ (fun a b => f a = .ok b) as bs := by
  induction as generalizing bs with
  | nil => simp [pure, Except.pure, eq_comm]
  | cons a as ih =>
    simp only [List.mapM_cons, bind_eq_ok, List.forall₂_cons_left_iff, ih, pure, Except.pure,
      Except.ok.injEq]
    constructor
    · rintro ⟨b, hb, bs, hbs, rfl⟩
      exact ⟨b, bs, hb, hbs, rfl⟩
    · rintro ⟨b, bs, hb, hbs, rfl⟩
      exact ⟨b, hb, bs, hbs, rfl⟩

theorem forall_of_mapM {α β : Type} {f : α → Except Error β} {P : β → Prop}
    (hf : ∀ a b, f a = .ok b → P b) {as : List α} {bs : List β} (h : as.mapM f = .ok bs) :
    ∀ b ∈ bs, P b := by
  have hall := mapM_eq_ok.mp h
  clear h
  induction hall with
  | nil => simp
  | cons hb _ ih => exact List.forall_mem_cons.mpr ⟨hf _ _ hb, ih⟩

/-- All definitions are made, or the first one that fails stops them. -/
theorem ofRaw_eq (location : Location) (ds : RawDefinitions) :
    Registry.ofRaw location ds = (ds.mapM fun d => rawMacro location d.1 d.2).map fun ms =>
      ms.foldl Registry.insert .empty := by
  suffices h : ∀ r : Registry, ds.foldlM (fun r d => r.defineRaw location d.1 d.2) r =
      (ds.mapM fun d => rawMacro location d.1 d.2).map fun ms => ms.foldl Registry.insert r from
    h .empty
  induction ds with
  | nil => exact fun _ => rfl
  | cons d ds ih =>
    intro r
    rw [List.foldlM_cons, List.mapM_cons, defineRaw_eq]
    cases rawMacro location d.1 d.2 with
    | error e => rfl
    | ok m =>
      refine (ih (r.insert m)).trans ?_
      cases ds.mapM fun d => rawMacro location d.1 d.2 <;> rfl

/-! ### Only macros that pass the check -/

/-- Whatever is defined has passed the check. -/
def Change.Valid (c : Change) : Prop := ∀ m ∈ c.macro?, m.signature.Valid

theorem Change.valid_definition {m : Macro} (h : m.signature.Valid) : (definition m).Valid := by
  rintro _ ⟨⟩
  exact h

theorem Change.valid_removal (name : Text) : (removal name).Valid := by
  rintro _ ⟨⟩

theorem valid_givenMacro {name : Text} {parameters : Option (List Text)} {body : Body}
    {location : Location} {m : Macro} (h : givenMacro name parameters body location = .ok m) :
    m.signature.Valid := by
  obtain ⟨ts, -, h⟩ := bind_eq_ok.mp h
  obtain ⟨hm, rfl⟩ := Macro.checked_eq_ok.mp h
  exact hm

theorem valid_rawMacro {location : Location} {signature body : Text} {m : Macro}
    (h : rawMacro location signature body = .ok m) : m.signature.Valid := by
  obtain ⟨s, -, h⟩ := bind_eq_ok.mp h
  exact valid_givenMacro h

theorem Directive.valid_change {d : Directive} {c : Change} (h : d.change = .ok c) : c.Valid := by
  rw [change] at h
  split at h
  · obtain ⟨m, -, h⟩ := bind_eq_ok.mp h
    obtain ⟨n, hn, h⟩ := bind_eq_ok.mp h
    obtain ⟨hm, rfl⟩ := Macro.checked_eq_ok.mp hn
    cases h
    exact Change.valid_definition hm
  · obtain ⟨⟨name, rest⟩, -, h⟩ := bind_eq_ok.mp h
    cases h
    exact Change.valid_removal _

/-! ### Changes one after the other -/

namespace Registry

def amendAll (r : Registry) (cs : List Change) : Registry := cs.foldl amend r

/-- The registry that has seen these changes and no others. -/
def replay (cs : List Change) : Registry := amendAll .empty cs

/-- What the changes report. -/
def reports (r : Registry) : List Change → List Redefinition
  | [] => []
  | c :: cs => (r.report c).toList ++ (r.amend c).reports cs

theorem Sound.amend {r : Registry} (h : r.Sound) {c : Change} (hc : c.Valid) :
    (r.amend c).Sound := by
  cases c with
  | definition m => exact h.insert (hc m rfl)
  | removal name => exact h.erase name

theorem Sound.amendAll {r : Registry} (h : r.Sound) {cs : List Change} (hcs : ∀ c ∈ cs, c.Valid) :
    (r.amendAll cs).Sound := by
  induction cs generalizing r with
  | nil => exact h
  | cons c cs ih =>
    exact ih (h.amend (hcs c List.mem_cons_self)) fun d hd => hcs d (List.mem_cons_of_mem c hd)

theorem replay_append (cs : List Change) (c : Change) :
    replay (cs ++ [c]) = (replay cs).amend c := by
  rw [replay, amendAll, List.foldl_append]
  rfl

theorem lookup_replay (cs : List Change) (name : Text) :
    (replay cs).lookup name = Change.standing cs name := by
  induction cs using List.reverseRecOn with
  | nil => rfl
  | append_singleton cs c ih => rw [replay_append, lookup_amend, Change.standing_append, ih]

end Registry

end TextMacros
