import Mathlib.Data.List.GetD
import TextMacros.Proofs.Changes
import TextMacros.Registry.Shelf
import TextMacros.Workspace

/-!
# Records of definitions

Beside a shelf of registries runs a ledger with a journal for each of them.
After any steps a registry is the one that the changes in its journal make.
Texts and engines change registries in the same way: whatever they do to them
can be done step by step on a shelf.
-/

set_option autoImplicit false

namespace TextMacros

/-! ### Steps on a shelf -/

namespace Shelf

/-- What a step does, whatever stands on the shelf. -/
inductive Effect where
  | change (c : Change)
  | copy
  | use (number : Nat)
  | fresh (ms : List Macro)
  deriving DecidableEq, Repr

def Step.effect : Step → Except Fault Effect
  | .define name parameters body location =>
    match givenMacro name parameters body location with
    | .error e => .error (.error e)
    | .ok m => .ok (.change (.definition m))
  | .undefine name => .ok (.change (.removal name))
  | .obey d =>
    match d.change with
    | .error e => .error (.error e)
    | .ok c => .ok (.change c)
  | .copy => .ok .copy
  | .use number => .ok (.use number)
  | .readRaw location ds =>
    if location.source = .text then .error (.misuse .textLocation)
    else match ds.mapM fun d => rawMacro location d.1 d.2 with
      | .error e => .error (.error e)
      | .ok ms => .ok (.fresh ms)

/-- Whatever is defined has passed the check. -/
def Effect.Valid : Effect → Prop
  | .change c => c.Valid
  | .fresh ms => ∀ m ∈ ms, m.signature.Valid
  | _ => True

theorem Step.valid_effect {step : Step} {e : Effect} (h : step.effect = .ok e) : e.Valid := by
  cases step with
  | define name parameters body location =>
    rw [effect] at h
    split at h
    · cases h
    · next m hm =>
      cases h
      exact Change.valid_definition (valid_givenMacro hm)
  | undefine name =>
    cases h
    exact Change.valid_removal name
  | obey d =>
    rw [effect] at h
    split at h
    · cases h
    · next c hc =>
      cases h
      exact Directive.valid_change hc
  | copy =>
    cases h
    trivial
  | use number =>
    cases h
    trivial
  | readRaw location ds =>
    rw [effect] at h
    split at h
    · cases h
    split at h
    · cases h
    · next ms hms =>
      cases h
      exact forall_of_mapM (fun _ _ => valid_rawMacro) hms

/-- Only a change reports anything. -/
def enact (s : Shelf) : Effect → Shelf × Option Redefinition
  | .change c => (s.replace (s.registry.amend c), s.registry.report c)
  | .copy => (s.add s.registry, none)
  | .use number => ({ s with current := number }, none)
  | .fresh ms => (s.add (ms.foldl Registry.insert .empty), none)

theorem step_eq (s : Shelf) (step : Step) : s.step step = step.effect.map s.enact := by
  cases step with
  | define name parameters body location =>
    rw [Shelf.step, Step.effect, defineBody_eq]
    cases givenMacro name parameters body location <;> rfl
  | undefine name => rfl
  | obey d =>
    rw [Shelf.step, Step.effect, apply_eq]
    cases d.change <;> rfl
  | copy => rfl
  | use number => rfl
  | readRaw location ds =>
    rw [Shelf.step, Step.effect, Registry.ofRawAt]
    by_cases hl : location.source = .text
    · rw [if_pos hl, if_pos hl]
      rfl
    · rw [if_neg hl, if_neg hl, ofRaw_eq]
      cases ds.mapM fun d => rawMacro location d.1 d.2 <;> rfl

theorem perform_error {s : Shelf} {step : Step} {f : Fault} (h : step.effect = .error f) :
    s.perform step = (s, .error f) := by
  rw [perform, step_eq, h]
  rfl

theorem perform_ok {s : Shelf} {step : Step} {e : Effect} (h : step.effect = .ok e) :
    s.perform step = ((s.enact e).1, .ok (s.enact e).2) := by
  rw [perform, step_eq, h]
  rfl

theorem perform_eq_error {s : Shelf} {step : Step} {f : Fault} :
    (s.perform step).2 = .error f ↔ step.effect = .error f := by
  cases h : step.effect with
  | error e => simp [perform_error h]
  | ok e => simp [perform_ok h]

theorem perform_eq_report {s : Shelf} {step : Step} {report : Redefinition} :
    (s.perform step).2 = .ok (some report) ↔ ∃ m,
      step.effect = .ok (.change (.definition m)) ∧ report.replacement = m ∧
      s.registry.lookup m.name = some report.replaced ∧
      report.replaced.sameDefinition m = false := by
  cases h : step.effect with
  | error e => simp [perform_error h]
  | ok e =>
    rw [perform_ok h]
    cases e with
    | change c =>
      cases c with
      | definition m =>
        simp only [enact, Registry.report, Except.ok.injEq, Effect.change.injEq,
          Change.definition.injEq, redefinition_eq_some, exists_eq_left']
      | removal name => simp [enact, Registry.report]
    | copy => simp [enact]
    | use number => simp [enact]
    | fresh ms => simp [enact]

end Shelf

/-! ### Journals beside a shelf -/

/-- For each registry on a shelf the changes that it has seen; a copy has seen
what the registry has seen that it was taken from. -/
structure Ledger where
  journals : List (List Change)
  current : Nat

namespace Ledger

def start : Ledger := ⟨[[]], 0⟩

def journal (l : Ledger) (number : Nat) : List Change := l.journals.getD number []

def add (l : Ledger) (journal : List Change) : Ledger :=
  ⟨l.journals ++ [journal], l.journals.length⟩

def enter (l : Ledger) : Shelf.Effect → Ledger
  | .change c => { l with journals := l.journals.set l.current (l.journal l.current ++ [c]) }
  | .copy => l.add (l.journal l.current)
  | .use number => { l with current := number }
  | .fresh ms => l.add (ms.map .definition)

/-- A step that fails is not recorded. -/
def note (l : Ledger) (step : Shelf.Step) : Ledger :=
  match step.effect with
  | .error _ => l
  | .ok e => l.enter e

def run (l : Ledger) (steps : List Shelf.Step) : Ledger := steps.foldl note l

/-- The shelf that a ledger tells of. -/
def shelf (l : Ledger) : Shelf := ⟨l.journals.map Registry.replay, l.current⟩

def Valid (l : Ledger) : Prop := ∀ journal ∈ l.journals, ∀ c ∈ journal, c.Valid

theorem getD_shelf (l : Ledger) (number : Nat) :
    l.shelf.registries.getD number .empty = Registry.replay (l.journal number) :=
  List.getD_map l.journals [] Registry.replay

theorem shelf_add (l : Ledger) (journal : List Change) :
    (l.add journal).shelf = l.shelf.add (Registry.replay journal) := by
  simp [shelf, add, Shelf.add]

theorem shelf_enter (l : Ledger) (e : Shelf.Effect) : (l.enter e).shelf = (l.shelf.enact e).1 := by
  have hcurrent : l.shelf.registry = Registry.replay (l.journal l.current) := l.getD_shelf l.current
  cases e with
  | change c =>
    simp only [enter, Shelf.enact, hcurrent, ← Registry.replay_append]
    simp [shelf, Shelf.replace, List.map_set]
  | copy => simp only [enter, Shelf.enact, hcurrent, shelf_add]
  | use number => rfl
  | fresh ms =>
    have hms : Registry.replay (ms.map .definition) = ms.foldl Registry.insert .empty :=
      List.foldl_map
    simp only [enter, Shelf.enact, shelf_add, hms]

theorem shelf_note (l : Ledger) (step : Shelf.Step) :
    (l.note step).shelf = (l.shelf.perform step).1 := by
  unfold note
  split
  · next f h => rw [Shelf.perform_error h]
  · next e h => rw [Shelf.perform_ok h, shelf_enter]

theorem shelf_run (l : Ledger) (steps : List Shelf.Step) :
    (l.run steps).shelf = l.shelf.run steps := by
  induction steps generalizing l with
  | nil => rfl
  | cons step steps ih => exact (ih (l.note step)).trans (by rw [shelf_note]; rfl)

theorem valid_start : start.Valid := by simp [start, Valid]

theorem Valid.journal {l : Ledger} (h : l.Valid) (number : Nat) :
    ∀ c ∈ l.journal number, c.Valid := by
  rw [Ledger.journal, List.getD_eq_getElem?_getD]
  cases hn : l.journals[number]? with
  | none => simp
  | some journal => exact h journal (List.mem_of_getElem? hn)

theorem Valid.add {l : Ledger} (h : l.Valid) {journal : List Change}
    (hj : ∀ c ∈ journal, c.Valid) : (l.add journal).Valid := by
  simp only [Ledger.Valid, Ledger.add, List.forall_mem_append, List.forall_mem_singleton] at h ⊢
  exact ⟨h, hj⟩

theorem Valid.enter {l : Ledger} (h : l.Valid) {e : Shelf.Effect} (he : e.Valid) :
    (l.enter e).Valid := by
  cases e with
  | change c =>
    intro journal hj
    obtain hj | rfl := List.mem_or_eq_of_mem_set hj
    · exact h journal hj
    · rw [List.forall_mem_append, List.forall_mem_singleton]
      exact ⟨h.journal l.current, he⟩
  | copy => exact h.add (h.journal l.current)
  | use number => exact h
  | fresh ms =>
    refine h.add fun c hc => ?_
    obtain ⟨m, hm, rfl⟩ := List.mem_map.mp hc
    exact Change.valid_definition (he m hm)

theorem Valid.note {l : Ledger} (h : l.Valid) (step : Shelf.Step) : (l.note step).Valid := by
  unfold Ledger.note
  split
  · exact h
  · next e he => exact h.enter (Shelf.Step.valid_effect he)

theorem Valid.run {l : Ledger} (h : l.Valid) (steps : List Shelf.Step) : (l.run steps).Valid := by
  induction steps generalizing l with
  | nil => exact h
  | cons step steps ih => exact ih (h.note step)

theorem Valid.sound_shelf {l : Ledger} (h : l.Valid) : ∀ r ∈ l.shelf.registries, r.Sound := by
  intro r hr
  obtain ⟨journal, hj, rfl⟩ := List.mem_map.mp hr
  exact Registry.Sound.empty.amendAll (h journal hj)

end Ledger

/-! ### Directives in a text -/

def Chunks.directives : Chunks → List Directive
  | last _ => []
  | cut _ d _ rest => d :: rest.directives

/-- The directives of a text that is processed under a configuration. -/
def Config.directivesOf (c : Config) (s : TokenStream) : List Directive :=
  if c.directives then (Chunks.ofLines (tokenLines s.tokens)).directives else []

/-- The changes of the first directives are made and reported, and nothing
else is; only where processing fails some directives are left. -/
def Processed.Amends (p : Processed) (r : Registry) (ds : List Directive) : Prop :=
  ∃ cs rest, ds.map Directive.change = cs.map .ok ++ rest ∧ (p.failure = none → rest = []) ∧
    p.registry = r.amendAll cs ∧ p.redefinitions = r.reports cs

namespace Processed
variable {r : Registry} {ds : List Directive}

/-- A failure before the first directive is obeyed. -/
theorem amends_failed (ts : List Token) (e : Error) (g : Guard) :
    (⟨ts, some e, [], r, g⟩ : Processed).Amends r ds :=
  ⟨[], ds.map Directive.change, rfl, nofun, rfl, rfl⟩

theorem amends_ofExpanded (x : Expanded) : (ofExpanded r x).Amends r [] := by
  rw [ofExpanded]
  split
  · exact amends_failed ..
  · exact ⟨[], [], rfl, fun _ => rfl, rfl, rfl⟩

theorem Amends.after {p : Processed} {d : Directive} {c : Change} (hd : d.change = .ok c)
    (h : p.Amends (r.amend c) ds) (ts : List Token) :
    (p.after ts (r.report c).toList).Amends r (d :: ds) := by
  obtain ⟨cs, rest, hds, hrest, hregistry, hreports⟩ := h
  refine ⟨c :: cs, rest, ?_, hrest, hregistry, ?_⟩
  · rw [List.map_cons, hd, hds, List.map_cons, List.cons_append]
  · rw [Processed.after, hreports, Registry.reports]

theorem Amends.sound {p : Processed} (h : p.Amends r ds) (hr : r.Sound) : p.registry.Sound := by
  obtain ⟨cs, rest, hds, -, hregistry, -⟩ := h
  rw [hregistry]
  refine hr.amendAll fun c hc => ?_
  have hmem : Except.ok c ∈ ds.map Directive.change := by
    rw [hds]
    exact List.mem_append_left _ (List.mem_map_of_mem hc)
  obtain ⟨d, -, hd⟩ := List.mem_map.mp hmem
  exact Directive.valid_change hd

end Processed

theorem Chunks.process_amends (limit : Int) (failure : Option Error) (r : Registry) (g : Guard)
    (chunks : Chunks) : (chunks.process limit failure r g).Amends r chunks.directives := by
  induction chunks generalizing r g with
  | last chunk =>
    cases failure with
    | some e => exact Processed.amends_failed ..
    | none => exact Processed.amends_ofExpanded _
  | cut chunk d lineBreak rest ih =>
    rw [process, directives]
    split
    · exact Processed.amends_failed ..
    · rw [apply_eq]
      cases hd : d.change with
      | error e => exact Processed.amends_failed ..
      | ok c => exact (ih (r.amend c) _).after hd _

theorem process_amends (c : Config) (r : Registry) (g : Guard) (s : TokenStream) :
    (process c r g s).Amends r (c.directivesOf s) := by
  rw [process, Config.directivesOf]
  split
  · exact Chunks.process_amends ..
  · cases s.failure with
    | some e => exact Processed.amends_failed ..
    | none => exact Processed.amends_ofExpanded _

/-! ### Engines -/

namespace Shelf
variable {s : Shelf}

theorem run_cons (s : Shelf) (step : Step) (steps : List Step) :
    s.run (step :: steps) = (s.perform step).1.run steps := rfl

theorem run_append (s : Shelf) (steps more : List Step) :
    s.run (steps ++ more) = (s.run steps).run more := List.foldl_append

theorem replace_registry (s : Shelf) : s.replace s.registry = s :=
  congrArg (fun w : Workspace => (⟨w.registries, s.current⟩ : Shelf))
    (Workspace.setRegistryAt_self ⟨s.registries, []⟩ s.current)

theorem registry_replace (h : s.current < s.registries.length) (r : Registry) :
    (s.replace r).registry = r := by
  rw [registry, replace, List.getD_eq_getElem?_getD, List.getElem?_set_self h, Option.getD_some]

theorem replace_replace (s : Shelf) (r q : Registry) : (s.replace r).replace q = s.replace q := by
  simp [replace]

theorem perform_obey {d : Directive} {c : Change} (hd : d.change = .ok c) (s : Shelf) :
    (s.perform (.obey d)).1 = s.replace (s.registry.amend c) := by
  have he : (Step.obey d).effect = .ok (.change c) := by rw [Step.effect, hd]
  rw [perform_ok he]
  rfl

/-- A definition by a text alone is one at no place of its own. -/
theorem step_defineText (s : Shelf) (name : Text) (parameters : Option (List Text)) (body : Text) :
    s.step (.define name parameters (.text .definition body) .definition) =
      s.redefine (s.registry.defineText name parameters body) := rfl

/-- Directives that are obeyed one by one make their changes. -/
theorem run_obey (h : s.current < s.registries.length) {ds : List Directive} {cs : List Change}
    (hds : ds.map Directive.change = cs.map .ok) :
    s.run (ds.map .obey) = s.replace (s.registry.amendAll cs) := by
  induction cs generalizing s ds with
  | nil =>
    obtain rfl : ds = [] := by simpa using hds
    exact s.replace_registry.symm
  | cons c cs ih =>
    obtain ⟨d, ds, rfl, hd, hrest⟩ := List.map_eq_cons_iff.mp hds
    have hcurrent : (s.replace (s.registry.amend c)).current <
        (s.replace (s.registry.amend c)).registries.length := by simpa [replace] using h
    rw [List.map_cons, run_cons, perform_obey hd, ih hcurrent hrest, registry_replace h,
      replace_replace]
    rfl

/-- What a text makes of the current registry can be made of it in steps. -/
theorem exists_run_of_amends (h : s.current < s.registries.length) {p : Processed}
    {ds : List Directive} (hp : p.Amends s.registry ds) :
    ∃ steps, s.run steps = s.replace p.registry := by
  obtain ⟨cs, rest, hds, -, hregistry, -⟩ := hp
  have hobeyed : (ds.take cs.length).map Directive.change = cs.map .ok := by
    rw [List.map_take, hds, List.take_left' (by simp)]
  exact ⟨_, hregistry ▸ run_obey h hobeyed⟩

end Shelf

namespace Workspace

/-- The registries of all engines, that of one engine current. -/
def shelf (w : Workspace) (number : Nat) : Shelf := ⟨w.registries, (w.engine number).registry⟩

/-- A step of an engine is a step on its shelf: it changes what that step
changes, it fails as that step does, and it reports what that step reports. -/
structure Makes (w : Workspace) (number : Nat) (s : Step) (step : Shelf.Step) : Prop where
  workspace : (w.step number s).1 =
    { w with registries := ((w.shelf number).perform step).1.registries }
  failure : ∀ f, (w.step number s).2.result = .error f ↔
    ∃ e, f = .text e ∧ ((w.shelf number).perform step).2 = .error (.error e)
  report : (w.step number s).2.redefinitions =
    ((w.shelf number).perform step).2.toOption.join.toList

theorem makes_define (w : Workspace) (number : Nat) (name : Text)
    (parameters : Option (List Text)) (body : Text) :
    w.Makes number (.define name parameters body)
      (.define name parameters (.text .definition body) .definition) := by
  have hregistry : (w.shelf number).registry = w.registryOf number := rfl
  cases h : (w.registryOf number).defineText name parameters body with
  | error e =>
    have hw : w.step number (.define name parameters body) =
        w.answer number (.error (.text e)) [] := by rw [step, h]
    have hs : (w.shelf number).perform
        (.define name parameters (.text .definition body) .definition) =
        (w.shelf number, .error (.error e)) := by
      rw [Shelf.perform, Shelf.step_defineText, hregistry, h]
      rfl
    refine ⟨?_, fun f => ?_, ?_⟩
    · rw [hw, hs]
      rfl
    · simp [hw, hs, answer, eq_comm]
    · rw [hw, hs]
      rfl
  | ok x =>
    obtain ⟨r, redefinition⟩ := x
    have hw : w.step number (.define name parameters body) =
        (w.setRegistryOf number r).answer number (.ok (.defined redefinition))
          redefinition.toList := by rw [step, h]
    have hs : (w.shelf number).perform
        (.define name parameters (.text .definition body) .definition) =
        ((w.shelf number).replace r, .ok redefinition) := by
      rw [Shelf.perform, Shelf.step_defineText, hregistry, h]
      rfl
    refine ⟨?_, fun f => ?_, ?_⟩
    · rw [hw, hs]
      rfl
    · simp [hw, hs, answer]
    · rw [hw, hs]
      rfl

theorem makes_undefine (w : Workspace) (number : Nat) (name : Text) :
    w.Makes number (.undefine name) (.undefine name) where
  workspace := rfl
  failure f := by simp [step, answer, Shelf.perform, Shelf.step]
  report := rfl

/-- A step that fails leaves everything as it is. -/
theorem Makes.unchanged {w : Workspace} {number : Nat} {s : Step} {step : Shelf.Step}
    (h : w.Makes number s step) {f : Failure} (hf : (w.step number s).2.result = .error f) :
    (w.step number s).1 = w ∧ (w.step number s).2.redefinitions = [] := by
  obtain ⟨e, -, he⟩ := (h.failure f).mp hf
  rw [h.workspace, h.report, he, Shelf.perform_error (Shelf.perform_eq_error.mp he)]
  exact ⟨rfl, rfl⟩

/-- Registries are changed by an expansion as on a shelf on which the registry of the engine is
copied, and the directives are obeyed up to the first that fails. -/
theorem exists_run_expand (w : Workspace) (number : Nat) (input : Input) :
    ∃ steps, (w.expand number input).1.registries = ((w.shelf number).run steps).registries := by
  unfold expand
  dsimp only
  split
  · exact ⟨[], rfl⟩
  split
  · exact ⟨[], rfl⟩
  next t ht =>
  unfold workplace
  split
  · have hcurrent : ((w.shelf number).add (w.shelf number).registry).current <
        ((w.shelf number).add (w.shelf number).registry).registries.length := by
      simp [Shelf.add]
    obtain ⟨steps, hsteps⟩ := Shelf.exists_run_of_amends hcurrent
      (process_amends (w.engine number).config _ [] (lexText .text t))
    refine ⟨.copy :: steps, ?_⟩
    rw [Shelf.run_cons]
    exact congrArg Shelf.registries hsteps.symm
  · next hc =>
    refine ⟨[], ?_⟩
    rw [process_registry (by simpa using hc), setRegistryAt_self]
    rfl

/-- Whatever an engine does to registries can be done on its shelf. -/
theorem exists_run_step (w : Workspace) (number : Nat) (s : Step) :
    ∃ steps, (w.step number s).1.registries = ((w.shelf number).run steps).registries := by
  cases s with
  | define name parameters body =>
    exact ⟨[.define name parameters (.text .definition body) .definition],
      congrArg registries (w.makes_define number name parameters body).workspace⟩
  | undefine name =>
    exact ⟨[.undefine name], congrArg registries (w.makes_undefine number name).workspace⟩
  | expand input => exact w.exists_run_expand number input
  | configure config => exact ⟨[], rfl⟩
  | create share config =>
    cases share with
    | true => exact ⟨[], rfl⟩
    | false => exact ⟨[.readRaw .commandLine []], rfl⟩
  | lookup name => exact ⟨[], rfl⟩

theorem exists_run (w : Workspace) (steps : List (Nat × Step)) {s : Shelf}
    (hs : s.registries = w.registries) :
    ∃ moves, (w.run steps).1.registries = (s.run moves).registries := by
  induction steps generalizing w s with
  | nil => exact ⟨[], hs.symm⟩
  | cons step steps ih =>
    obtain ⟨number, step⟩ := step
    obtain ⟨first, hfirst⟩ := w.exists_run_step number step
    obtain ⟨others, hothers⟩ := ih (w.step number step).1 hfirst.symm
    have huse : s.run (.use (w.engine number).registry :: first) = (w.shelf number).run first := by
      rw [Shelf.run_cons, shelf, ← hs]
      rfl
    refine ⟨(.use (w.engine number).registry :: first) ++ others, ?_⟩
    rw [Shelf.run_append, huse, ← hothers]
    rfl

end Workspace

/-! ### Records -/

/-- A shelf beside its ledger. Every registry is sound and holds what the
journal of its changes says. What a step does depends on the step alone; where
it fails nothing changes, and it reports a definition exactly if that takes the
place of a different one. A text makes the changes of its directives up to the
first one that fails. -/
structure Shelf.KeepsRecords (s : Shelf) (l : Ledger) : Prop where
  sound : ∀ r ∈ s.registries, r.Sound
  lookup : ∀ number name,
    (s.registries.getD number .empty).lookup name = Change.standing (l.journal number) name
  failure : ∀ step f, (s.perform step).2 = .error f ↔ step.effect = .error f
  unchanged : ∀ step f, (s.perform step).2 = .error f → (s.perform step).1 = s
  report : ∀ step report, (s.perform step).2 = .ok (some report) ↔ ∃ m,
    step.effect = .ok (.change (.definition m)) ∧ report.replacement = m ∧
    s.registry.lookup m.name = some report.replaced ∧ report.replaced.sameDefinition m = false
  text : ∀ r ∈ s.registries, ∀ c g text, (process c r g text).Amends r (c.directivesOf text) ∧
    (process c r g text).registry.Sound

/-- The registries of engines are those of a shelf after some steps. Engines
define and undefine as on it, and a definition that fails leaves everything as
it is. -/
structure Workspace.KeepsRecords (w : Workspace) : Prop where
  sound : ∀ r ∈ w.registries, r.Sound
  shelf : ∃ steps, w.registries = (Shelf.start.run steps).registries
  define : ∀ number name parameters body, w.Makes number (.define name parameters body)
    (.define name parameters (.text .definition body) .definition)
  undefine : ∀ number name, w.Makes number (.undefine name) (.undefine name)
  unchanged : ∀ number name parameters body failure,
    (w.step number (.define name parameters body)).2.result = .error failure →
    (w.step number (.define name parameters body)).1 = w ∧
    (w.step number (.define name parameters body)).2.redefinitions = []

theorem Shelf.sound_run (steps : List Step) : ∀ r ∈ (start.run steps).registries, r.Sound := by
  have hshelf : (Ledger.start.run steps).shelf = start.run steps := Ledger.start.shelf_run steps
  exact hshelf ▸ (Ledger.valid_start.run steps).sound_shelf

theorem Shelf.keepsRecords_run (steps : List Step) :
    (start.run steps).KeepsRecords (Ledger.start.run steps) where
  sound := sound_run steps
  lookup number name := by
    have hshelf : (Ledger.start.run steps).shelf = start.run steps := Ledger.start.shelf_run steps
    rw [← hshelf, Ledger.getD_shelf, Registry.lookup_replay]
  failure step f := perform_eq_error
  unchanged step f hf := by rw [perform_error (perform_eq_error.mp hf)]
  report step report := perform_eq_report
  text r hr c g text := by
    have hp := process_amends c r g text
    exact ⟨hp, hp.sound (sound_run steps r hr)⟩

theorem Workspace.keepsRecords_run (config : Config) (steps : List (Nat × Step)) :
    ((start config).run steps).1.KeepsRecords := by
  obtain ⟨moves, hmoves⟩ := (start config).exists_run steps (s := .start) rfl
  refine ⟨?_, ⟨moves, hmoves⟩, makes_define _, makes_undefine _,
    fun _ _ _ _ _ => (makes_define _ _ _ _ _).unchanged⟩
  rw [hmoves]
  exact Shelf.sound_run moves

/-- After any steps the shelf and the registries of any engines keep their records. -/
theorem registries_keep_records (steps : List Shelf.Step) :
    (Shelf.start.run steps).KeepsRecords (Ledger.start.run steps) ∧
      ∀ config steps, ((Workspace.start config).run steps).1.KeepsRecords :=
  ⟨Shelf.keepsRecords_run steps, Workspace.keepsRecords_run⟩

end TextMacros
