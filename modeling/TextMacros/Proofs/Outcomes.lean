import Mathlib
import TextMacros.CommandLine.Run
import TextMacros.Proofs.Changes
import TextMacros.Proofs.Pieces

/-!
# Outcomes of a run

A run that is asked for neither its version nor help writes the whole
expansion of its source and ends with status zero, or it writes nothing and
ends with another status. Nothing is written while something can still fail.
-/

set_option autoImplicit false

namespace TextMacros

namespace Ending

/-- The status that the caller of the program sees. An error that nothing
catches ends the program with status one. -/
def exitCode (e : Ending) : Int := e.status.getD 1

/-- Nothing is written, and the status tells of it. -/
structure Failed (e : Ending) : Prop where
  exitCode : e.exitCode ≠ 0
  output : e.output = []

theorem failed_exit {status : Int} (h : status ≠ 0) (messages : Text) :
    (exit status messages).Failed := ⟨h, rfl⟩

theorem failed_fatal (t : Text) : (fatal t).Failed := failed_exit (by decide) _

theorem failed_escape (e : Escape) : (escape e).Failed := ⟨Int.one_ne_zero, rfl⟩

theorem failed_after {e : Ending} {messages : Text} : (e.after messages).Failed ↔ e.Failed :=
  ⟨fun h => ⟨h.exitCode, h.output⟩, fun h => ⟨h.exitCode, h.output⟩⟩

end Ending

open Ending

theorem Request.failed_refuse {refusal : Refusal} (h : refusal ≠ .helpWanted) (r : Request) :
    (r.refuse refusal).Failed := by
  unfold refuse
  split
  · exact failed_escape _
  · split
    · exact absurd rfl h
    · exact failed_exit (by decide) _

theorem Incident.failed_settle_failed (friendly : Bool) (e : Error) :
    ((Incident.failed e).settle friendly).Failed := by
  cases friendly with
  | true => exact failed_fatal _
  | false => exact failed_escape _

namespace Arguments
variable {a : Arguments}

theorem writtenDefinitions_eq_ok {ts : List Text} :
    a.writtenDefinitions = .ok ts ↔ a.definitions = ts.map some := by
  rw [writtenDefinitions, mapM_eq_ok, ← List.forall₂_eq_eq_eq, List.forall₂_map_right_iff]
  constructor
  all_goals
    intro h
    apply h.imp
    intro written t ht
    cases written <;> simp_all

/-- The greatest depth is the usual one where none is asked for. -/
theorem writtenDepth_eq_ok {depth : Int} :
    a.writtenDepth = .ok depth ↔ (a.depth = .usual ∧ depth = 200) ∨ a.depth = .given depth := by
  unfold writtenDepth
  cases a.depth with
  | usual => simp [eq_comm]
  | missing => simp
  | given asked => simp

/-- All that a plan depends on. -/
theorem plan_eq_ok {p : Plan} :
    a.plan = .ok p ↔ a.definitions = p.definitions.map some ∧
      ((a.depth = .usual ∧ p.config.depth = 200) ∨ a.depth = .given p.config.depth) ∧
      p.config.directives = a.directives ∧ p.config.fault? = none := by
  rw [← writtenDefinitions_eq_ok, ← writtenDepth_eq_ok, plan]
  cases a.writtenDefinitions with
  | error b => simp
  | ok definitions =>
    cases a.writtenDepth with
    | error b => simp
    | ok depth =>
      dsimp only
      constructor
      · intro h
        split at h
        · cases h
        next hf =>
          cases h
          exact ⟨rfl, rfl, rfl, hf⟩
      · rintro ⟨hts, hdepth, hdirectives, hf⟩
        obtain ⟨ts, depth', directives⟩ := p
        cases hts
        cases hdepth
        cases hdirectives
        simp only [hf]

theorem plan_of_fault {definitions : List Text} {c : Config} {f : Config.Fault}
    (ht : a.definitions = definitions.map some)
    (hdepth : (a.depth = .usual ∧ c.depth = 200) ∨ a.depth = .given c.depth)
    (hdirectives : c.directives = a.directives) (hf : c.fault? = some f) :
    a.plan = .error (.fatal f.message) := by
  obtain ⟨depth, directives⟩ := c
  cases hdirectives
  rw [plan, writtenDefinitions_eq_ok.mpr ht, writtenDepth_eq_ok.mpr hdepth]
  simp only [hf]

theorem failed_plan {e : Ending} (h : a.plan = .error e) : e.Failed := by
  unfold plan at h
  split at h
  · cases h
    exact failed_escape _
  · cases h
    exact failed_escape _
  · dsimp only at h
    split at h
    · cases h
      exact failed_fatal _
    · cases h

theorem undefine_none (r : Registry) :
    undefine r none = .ok r ∨ undefine r none = .error (.broken .noUndefinition) := by
  by_cases hr : r.size = 0
  · exact .inl (if_pos hr)
  · exact .inr (if_neg hr)

/-- Undefining leaves what is not named as it was. -/
theorem lookup_undefined {names : List (Option Text)} {r q : Registry}
    (h : names.foldlM undefine r = .ok q) (name : Text) :
    q.lookup name = if some name ∈ names then none else r.lookup name := by
  induction names generalizing r with
  | nil =>
    obtain rfl : r = q := Except.ok.inj h
    simp
  | cons n names ih =>
    rw [List.foldlM_cons, bind_eq_ok] at h
    obtain ⟨s, hs, hrest⟩ := h
    rw [ih hrest]
    cases n with
    | none =>
      obtain hok | hbroken := undefine_none r
      · obtain rfl : r = s := Except.ok.inj (hok.symm.trans hs)
        simp
      · cases hbroken.symm.trans hs
    | some erased =>
      obtain rfl : r.erase erased = s := Except.ok.inj hs
      rw [Registry.lookup_erase]
      simp only [List.mem_cons, Option.some.injEq]
      split <;> split <;> simp_all

/-- The signature and the body of a written definition: the first equals sign
stands between them, and where there is none the body is `1`. -/
inductive Parts : Text → Text × Text → Prop where
  | both {signature : Text} (h : CodePoint.equals ∉ signature) (body : Text) :
      Parts (signature ++ CodePoint.equals :: body) (signature, body)
  | signature {signature : Text} (h : CodePoint.equals ∉ signature) :
      Parts signature (signature, Text.ofString "1")

theorem parts_iff {written : Text} {d : Text × Text} :
    Parts written d ↔ rawDefinition written = d := by
  constructor
  · intro h
    cases h with
    | both h body => rw [rawDefinition, Text.splitEquals_append h, Option.getD_some]
    | signature h => rw [rawDefinition, Text.splitEquals_of_not_mem h, Option.getD_none]
  · rintro rfl
    by_cases h : CodePoint.equals ∈ written
    · obtain ⟨signature, body, rfl, hs⟩ := List.eq_append_cons_of_mem h
      rw [rawDefinition, Text.splitEquals_append hs, Option.getD_some]
      exact .both hs body
    · rw [rawDefinition, Text.splitEquals_of_not_mem h, Option.getD_none]
      exact .signature h

theorem forall₂_parts {written : List Text} {ds : List (Text × Text)} :
    List.Forall₂ Parts written ds ↔ written.map rawDefinition = ds := by
  rw [← List.forall₂_eq_eq_eq, List.forall₂_map_left_iff]
  exact ⟨fun h => h.imp fun _ _ => parts_iff.mp, fun h => h.imp fun _ _ => parts_iff.mpr⟩

theorem registry_eq_ok {definitions : List Text} {r : Registry} :
    a.registry definitions = .ok r ↔ ∃ ds defined, List.Forall₂ Parts definitions ds ∧
      Registry.ofRaw .commandLine (RawDefinitions.ofList ds) = .ok defined ∧
      a.undefinitions.foldlM undefine defined = .ok r := by
  simp only [forall₂_parts, exists_and_left, exists_eq_left']
  unfold registry rawDefinitions
  cases Registry.ofRaw .commandLine (RawDefinitions.ofList (definitions.map rawDefinition)) <;>
    simp

/-- Undefining fails only where a name is missing. -/
theorem failed_undefine {names : List (Option Text)} {r : Registry} {i : Incident}
    (h : names.foldlM undefine r = .error i) : i = .broken .noUndefinition := by
  induction names generalizing r with
  | nil => cases h
  | cons n names ih =>
    rw [List.foldlM_cons] at h
    cases n with
    | some erased => exact ih h
    | none =>
      obtain hok | hbroken := undefine_none r
      · rw [hok] at h
        exact ih h
      · rw [hbroken] at h
        exact (Except.error.inj h).symm

theorem failed_registry {definitions : List Text} {i : Incident}
    (h : a.registry definitions = .error i) : (a.settle i).Failed := by
  unfold registry at h
  split at h
  · cases h
    exact Incident.failed_settle_failed _ _
  · obtain rfl := failed_undefine h
    exact failed_escape _

/-- A text that has been expanded is written, and a failure leaves nothing. -/
theorem expandText_ends (a : Arguments) (host : Host) (c : Config) (r : Registry) (t : Text) :
    (∃ output, (expandInput r c (.text t)).result = .ok output ∧
        (a.expandText host c r t).exitCode = 0 ∧ (a.expandText host c r t).output = output) ∨
      ((a.expandText host c r t).Failed ∧
        ∃ f, (expandInput r c (.text t)).result = .error f) := by
  unfold expandText
  dsimp only
  cases (expandInput r c (.text t)).result with
  | ok output => exact .inl ⟨output, rfl, rfl, rfl⟩
  | error f =>
    refine .inr ⟨?_, f, rfl⟩
    cases f with
    | config fault => exact failed_after.mpr (failed_fatal _)
    | text e => exact failed_after.mpr (Incident.failed_settle_failed _ _)

end Arguments

/-! ### What a run is asked to expand -/

/-- The bytes for which a source stands: the standard input, or a file. -/
inductive Request.Gives (request : Request) : Text → Bytes → Prop where
  | standardInput : request.Gives Origin.inputMark request.standardInput
  | file {source : Text} {content : Bytes} (hs : source ≠ Origin.inputMark)
      (h : request.file (Path.ofText source) = some content) : request.Gives source content

namespace Origin

def bytes (request : Request) : Origin → Bytes
  | standardInput => request.standardInput
  | file _ content => content

/-- The source as a text is the whole of its bytes, decoded. -/
theorem read_eq_ok {request : Request} {origin : Origin} {t : Text} :
    origin.read request = .ok t ↔ Utf8.decode (origin.bytes request) = .ok t := by
  cases origin with
  | standardInput => rw [read, decode_bytes_eq, mapError_eq_ok, bytes]
  | file p content => rw [read, decodeFile_eq, mapError_eq_ok, bytes]

theorem gives_of_ofSource {request : Request} {source : Option Text} {origin : Origin}
    (h : ofSource request source = .ok origin) :
    ∃ written, source = some written ∧ request.Gives written (origin.bytes request) := by
  cases source with
  | none => cases h
  | some written =>
    refine ⟨written, rfl, ?_⟩
    rw [ofSource] at h
    split at h
    · next hs =>
      cases h
      exact hs ▸ .standardInput
    · next hs =>
      dsimp only at h
      split at h
      · next content hcontent =>
        cases h
        exact .file hs hcontent
      · cases h

end Origin

/-- All that goes into an expansion. -/
structure Job where
  arguments : Arguments
  definitions : List Text
  /-- The macros of all definitions, before any is taken away. -/
  defined : Registry
  registry : Registry
  config : Config
  text : Text

namespace Request

/-- The request asks for the expansion of a text, and nothing is wrong with
what it gives for that. -/
structure Asks (request : Request) (j : Job) : Prop where
  read : Arguments.read request.words = .ok j.arguments
  definitions : j.arguments.definitions = j.definitions.map some
  defined : ∃ ds, List.Forall₂ Arguments.Parts j.definitions ds ∧
    Registry.ofRaw .commandLine (RawDefinitions.ofList ds) = .ok j.defined
  registry : j.arguments.undefinitions.foldlM Arguments.undefine j.defined = .ok j.registry
  /-- Where no depth is given it is 200. -/
  depth : (j.arguments.depth = .usual ∧ j.config.depth = 200) ∨
    j.arguments.depth = .given j.config.depth
  directives : j.config.directives = j.arguments.directives
  source : ∃ source bytes, j.arguments.source = some source ∧ request.Gives source bytes ∧
    Utf8.decode bytes = .ok j.text

variable {request : Request} {j j' : Job}

/-- A source that stands for bytes has an origin from which they are read. -/
theorem Gives.exists_origin {source : Text} {bytes : Bytes} (h : request.Gives source bytes) :
    ∃ origin, Origin.ofSource request (some source) = .ok origin ∧
      origin.bytes request = bytes := by
  cases h with
  | standardInput => exact ⟨.standardInput, rfl, rfl⟩
  | file hs h =>
    refine ⟨.file (Path.ofText source) bytes, ?_, rfl⟩
    rw [Origin.ofSource, if_neg hs]
    simp only [h]

theorem Gives.unique {source : Text} {bytes bytes' : Bytes} (h : request.Gives source bytes)
    (h' : request.Gives source bytes') : bytes = bytes' := by
  obtain ⟨origin, ho, rfl⟩ := h.exists_origin
  obtain ⟨origin', ho', rfl⟩ := h'.exists_origin
  rw [Except.ok.inj (ho.symm.trans ho')]

theorem Asks.exists_origin (h : request.Asks j) :
    ∃ origin, Origin.ofSource request j.arguments.source = .ok origin ∧
      origin.read request = .ok j.text := by
  obtain ⟨source, bytes, hsource, hgives, ht⟩ := h.source
  obtain ⟨origin, ho, rfl⟩ := hgives.exists_origin
  exact ⟨origin, hsource ▸ ho, Origin.read_eq_ok.mpr ht⟩

/-- A request asks for one job at most. -/
theorem Asks.unique (h : request.Asks j) (h' : request.Asks j') : j = j' := by
  obtain ⟨a, definitions, defined, registry, ⟨depth, directives⟩, t⟩ := j
  obtain ⟨a', definitions', defined', registry', ⟨depth', directives'⟩, t'⟩ := j'
  obtain ⟨hr, hts, ⟨ds, hparts, hdefined⟩, hregistry, hdepth, hdirectives, source, bytes, hsource,
    hgives, ht⟩ := h
  obtain ⟨hr', hts', ⟨ds', hparts', hdefined'⟩, hregistry', hdepth', hdirectives', source', bytes',
    hsource', hgives', ht'⟩ := h'
  dsimp only at *
  obtain rfl : a = a' := Except.ok.inj (hr.symm.trans hr')
  obtain rfl : definitions = definitions' :=
    List.map_injective_iff.mpr (Option.some_injective _) (hts.symm.trans hts')
  obtain rfl : ds = ds' := (Arguments.forall₂_parts.mp hparts).symm.trans
    (Arguments.forall₂_parts.mp hparts')
  obtain rfl : defined = defined' := Except.ok.inj (hdefined.symm.trans hdefined')
  obtain rfl : registry = registry' := Except.ok.inj (hregistry.symm.trans hregistry')
  obtain rfl : depth = depth' := Except.ok.inj
    ((Arguments.writtenDepth_eq_ok.mpr hdepth).symm.trans (Arguments.writtenDepth_eq_ok.mpr hdepth'))
  obtain rfl : directives = directives' := hdirectives.trans hdirectives'.symm
  obtain rfl : source = source' := Option.some.inj (hsource.symm.trans hsource')
  obtain rfl : bytes = bytes' := hgives.unique hgives'
  obtain rfl : t = t' := Except.ok.inj (ht.symm.trans ht')
  rfl

/-- A request with a job is not one for the usage, and its arguments say
whether it is one for the version. -/
theorem Asks.expands (h : request.Asks j) (hv : j.arguments.version = false) :
    Arguments.read request.words ≠ .error .helpWanted ∧
      ∀ a, Arguments.read request.words = .ok a → a.version = false := by
  refine ⟨by simp [h.read], fun a ha => ?_⟩
  rwa [← Except.ok.inj (h.read.symm.trans ha)]

end Request

theorem expandInput_of_fault {r : Registry} {c : Config} {f : Config.Fault} (h : c.fault? = some f)
    (input : Input) : (expandInput r c input).result = .error (.config f) := by
  rw [expandInput, h]

section
variable {host : Host} {request : Request}

theorem perform_of_fault {j : Job} {f : Config.Fault} (h : request.Asks j)
    (hv : j.arguments.version = false) (hf : j.config.fault? = some f) :
    j.arguments.perform host request = .fatal f.message := by
  obtain ⟨origin, hs, -⟩ := h.exists_origin
  rw [Arguments.perform, if_neg (by simp [hv]), hs]
  simp only [Arguments.plan_of_fault h.definitions h.depth h.directives hf]

theorem perform_asked (host : Host) {j : Job} (h : request.Asks j) (hv : j.arguments.version = false)
    (hf : j.config.fault? = none) : ∃ messages, j.arguments.perform host request =
      Ending.after messages (j.arguments.expandText host j.config j.registry j.text) := by
  obtain ⟨origin, hs, hread⟩ := h.exists_origin
  obtain ⟨ds, hparts, hdefined⟩ := h.defined
  have hplan : j.arguments.plan = .ok ⟨j.definitions, j.config⟩ :=
    Arguments.plan_eq_ok.mpr ⟨h.definitions, h.depth, h.directives, hf⟩
  have hregistry : j.arguments.registry j.definitions = .ok j.registry :=
    Arguments.registry_eq_ok.mpr ⟨ds, j.defined, hparts, hdefined, h.registry⟩
  refine ⟨j.arguments.inform (Text.join ["Expanding '", origin.describe, "' with ",
    Text.ofInt j.registry.size, " predefined macro(s)"]), ?_⟩
  rw [Arguments.perform, if_neg (by simp [hv])]
  simp only [hs, hplan, Arguments.expandGoal, hregistry, hread]

/-- Without a job to do nothing but a failure is left. -/
theorem perform_failed {a : Arguments} (hr : Arguments.read request.words = .ok a)
    (hv : a.version = false) : (a.perform host request).Failed ∨ ∃ j, request.Asks j := by
  unfold Arguments.perform
  rw [if_neg (by simp [hv])]
  cases hs : Origin.ofSource request a.source with
  | error t => exact .inl (failed_fatal t)
  | ok origin =>
    cases hp : a.plan with
    | error e => exact .inl (Arguments.failed_plan hp)
    | ok p =>
      dsimp only
      unfold Arguments.expandGoal
      cases hregistry : a.registry p.definitions with
      | error i => exact .inl (Arguments.failed_registry hregistry)
      | ok r =>
        dsimp only
        cases ht : origin.read request with
        | error e => exact .inl (failed_after.mpr (Incident.failed_settle_failed _ _))
        | ok t =>
          obtain ⟨hdefinitions, hdepth, hdirectives, -⟩ := Arguments.plan_eq_ok.mp hp
          obtain ⟨ds, defined, hparts, hdefined, hundefined⟩ :=
            Arguments.registry_eq_ok.mp hregistry
          obtain ⟨source, hsource, hgives⟩ := Origin.gives_of_ofSource hs
          exact .inr ⟨⟨a, p.definitions, defined, r, p.config, t⟩, hr, hdefinitions,
            ⟨ds, hparts, hdefined⟩, hundefined, hdepth, hdirectives, source, _, hsource, hgives,
            Origin.read_eq_ok.mp ht⟩

/-- A job that is asked for is done as a whole, or not at all. -/
theorem run_asked {j : Job} (h : request.Asks j) (hv : j.arguments.version = false) :
    ((expandInput j.registry j.config (.text j.text)).result = .ok (run host request).output ∧
        (run host request).exitCode = 0) ∨
      ((run host request).Failed ∧
        ∃ f, (expandInput j.registry j.config (.text j.text)).result = .error f) := by
  have hrun : run host request =
      Ending.after request.launchWarning (j.arguments.perform host request) := by
    rw [run, h.read]
  rw [hrun]
  cases hf : j.config.fault? with
  | some fault =>
    rw [perform_of_fault h hv hf]
    exact .inr ⟨failed_after.mpr (failed_fatal _), _, expandInput_of_fault hf _⟩
  | none =>
    obtain ⟨messages, hperform⟩ := perform_asked host h hv hf
    rw [hperform]
    obtain ⟨output, hx, hcode, rfl⟩ | ⟨hfailed, hx⟩ :=
      j.arguments.expandText_ends host j.config j.registry j.text
    · exact .inl ⟨hx, hcode⟩
    · exact .inr ⟨failed_after.mpr (failed_after.mpr hfailed), hx⟩

end

/-- A run that shows neither the version nor the usage either writes exactly
what the text of its source expands to, under the macros of its definitions
without those that it undefines, and ends with status zero; or it writes
nothing and ends with another status, and then there is no such expansion. -/
theorem run_all_or_nothing (host : Host) {request : Request}
    (hh : Arguments.read request.words ≠ .error .helpWanted)
    (hv : ∀ a, Arguments.read request.words = .ok a → a.version = false) :
    (∃ j, request.Asks j ∧
        (∀ name, j.registry.lookup name =
          if some name ∈ j.arguments.undefinitions then none else j.defined.lookup name) ∧
        (expandInput j.registry j.config (.text j.text)).result = .ok (run host request).output ∧
        (run host request).exitCode = 0) ∨
      ((run host request).exitCode ≠ 0 ∧ (run host request).output = [] ∧
        ∀ j, request.Asks j →
          ∃ f, (expandInput j.registry j.config (.text j.text)).result = .error f) := by
  have hasked : ∀ j, request.Asks j →
      ((expandInput j.registry j.config (.text j.text)).result = .ok (run host request).output ∧
          (run host request).exitCode = 0) ∨
        ((run host request).Failed ∧
          ∃ f, (expandInput j.registry j.config (.text j.text)).result = .error f) :=
    fun j hj => run_asked hj (hv _ hj.read)
  -- A run that does not fail has come as far as a text to expand.
  have hfailed : (run host request).Failed ∨ ∃ j, request.Asks j := by
    cases hr : Arguments.read request.words with
    | error refusal =>
      refine .inl ?_
      rw [run, hr]
      exact failed_after.mpr (request.failed_refuse fun h => hh (h ▸ hr))
    | ok a =>
      rw [run, hr]
      exact (perform_failed hr (hv a hr)).imp_left failed_after.mpr
  by_cases hf : (run host request).Failed
  · refine .inr ⟨hf.exitCode, hf.output, fun j hj => ?_⟩
    obtain ⟨-, hzero⟩ | ⟨-, hx⟩ := hasked j hj
    · exact absurd hzero hf.exitCode
    · exact hx
  · obtain ⟨j, hj⟩ := hfailed.resolve_left hf
    obtain ⟨hx, hzero⟩ | ⟨hfail, -⟩ := hasked j hj
    · exact .inl ⟨j, hj, Arguments.lookup_undefined hj.registry, hx, hzero⟩
    · exact absurd hfail hf

def outcomeText : Text := "B\n#define M F(B)\nM\n"

/-- A run on the same text under the same macros, with further words. -/
def outcomeSample (more : List Text) : Request where
  program := "macrox"
  words := "-" :: "-D" :: "F(x)=x = N" :: "-D" :: "B" :: "-D" :: "N=2" :: "-U" :: "N" :: more
  file _ := none
  standardInput := outcomeText.map UInt8.ofNat

def outcomeMacros : Registry :=
  ⟨[⟨"N", none, [⟨.number, "2", .commandLine, some false⟩], .commandLine⟩,
    ⟨"B", none, [⟨.number, "1", .commandLine, some false⟩], .commandLine⟩,
    ⟨"F", some ["x"], [⟨.identifier, "x", .commandLine, some false⟩,
      ⟨.punctuation, "=", .commandLine, some true⟩,
      ⟨.identifier, "N", .commandLine, some true⟩], .commandLine⟩]⟩

def outcomeJob (depth : DepthLimit) (c : Config) : Job where
  arguments :=
    { source := some ("-" : Text)
      definitions := [some ("F(x)=x = N" : Text), some ("B" : Text), some ("N=2" : Text)]
      undefinitions := [some ("N" : Text)]
      directives := c.directives
      depth := depth }
  definitions := ["F(x)=x = N", "B", "N=2"]
  defined := outcomeMacros
  registry := outcomeMacros.erase "N"
  config := c
  text := outcomeText

theorem outcomeSample_asks {more : List Text} {depth : DepthLimit} {c : Config}
    (hread : Arguments.read (outcomeSample more).words = .ok (outcomeJob depth c).arguments)
    (hdepth : (depth = .usual ∧ c.depth = 200) ∨ depth = .given c.depth) :
    (outcomeSample more).Asks (outcomeJob depth c) where
  read := hread
  definitions := rfl
  defined := ⟨[("F(x)", "x = N"), ("B", "1"), ("N", "2")],
    Arguments.forall₂_parts.mpr rfl, by cbv⟩
  registry := rfl
  depth := hdepth
  directives := rfl
  source := ⟨"-", _, rfl, .standardInput, by cbv⟩

/-- With the usual depth the text is written out; with less it is not, although its first row
could be; and with less it is again where its directive is only text. -/
theorem run_all_or_nothing_sample :
    let usual := outcomeSample []
    let shallow := outcomeSample ["--max-expansion-depth", "2"]
    let plain := outcomeSample ["--max-expansion-depth=2", "--no-directives"]
    (∀ request ∈ [usual, shallow, plain], Arguments.read request.words ≠ .error .helpWanted ∧
      ∀ a, Arguments.read request.words = .ok a → a.version = false) ∧
    (usual.Asks (outcomeJob .usual ⟨200, true⟩) ∧
      run ⟨[], [], [], []⟩ usual = ⟨some 0, "1\n\n1 = N\n", [], none⟩ ∧
      (expandInput (outcomeMacros.erase "N") ⟨200, true⟩ (.text outcomeText)).result =
        .ok "1\n\n1 = N\n") ∧
    (shallow.Asks (outcomeJob (.given 2) ⟨2, true⟩) ∧
      (run ⟨[], [], [], []⟩ shallow).exitCode ≠ 0 ∧ (run ⟨[], [], [], []⟩ shallow).output = [] ∧
      (expandInput (outcomeMacros.erase "N") ⟨2, true⟩ (.text outcomeText)).result =
        .error (.text (.recursionLimit ⟨1, 12, .text⟩ "B" 2))) ∧
    (plain.Asks (outcomeJob (.given 2) ⟨2, false⟩) ∧
      run ⟨[], [], [], []⟩ plain = ⟨some 0, "1\n#define M 1 = N\nM\n", [], none⟩ ∧
      (expandInput (outcomeMacros.erase "N") ⟨2, false⟩ (.text outcomeText)).result =
        .ok "1\n#define M 1 = N\nM\n") := by
  intro usual shallow plain
  have husual : usual.Asks (outcomeJob .usual ⟨200, true⟩) :=
    outcomeSample_asks (by cbv) (.inl ⟨rfl, rfl⟩)
  have hshallow : shallow.Asks (outcomeJob (.given 2) ⟨2, true⟩) :=
    outcomeSample_asks (by cbv) (.inr rfl)
  have hplain : plain.Asks (outcomeJob (.given 2) ⟨2, false⟩) :=
    outcomeSample_asks (by cbv) (.inr rfl)
  obtain ⟨hu, hu'⟩ := husual.expands rfl
  obtain ⟨hs, hs'⟩ := hshallow.expands rfl
  obtain ⟨hp, hp'⟩ := hplain.expands rfl
  refine ⟨?_, ⟨husual, ?_⟩, ⟨hshallow, ?_⟩, ⟨hplain, ?_⟩⟩
  · exact List.forall_mem_cons.mpr ⟨⟨hu, hu'⟩,
      List.forall_mem_cons.mpr ⟨⟨hs, hs'⟩, List.forall_mem_singleton.mpr ⟨hp, hp'⟩⟩⟩
  · have hrun : run ⟨[], [], [], []⟩ (outcomeSample []) = ⟨some 0, "1\n\n1 = N\n", [], none⟩ := by cbv
    refine ⟨hrun, ?_⟩
    obtain ⟨j, hj, -, hx, -⟩ | ⟨hcode, -⟩ := run_all_or_nothing ⟨[], [], [], []⟩ hu hu'
    · obtain rfl := husual.unique hj
      rwa [hrun] at hx
    · rw [hrun] at hcode
      exact absurd rfl hcode
  · have hx : (expandInput (outcomeMacros.erase "N") ⟨2, true⟩ (.text outcomeText)).result =
        .error (.text (.recursionLimit ⟨1, 12, .text⟩ "B" 2)) := by cbv
    obtain ⟨j, hj, -, hok, -⟩ | ⟨hcode, houtput, -⟩ := run_all_or_nothing ⟨[], [], [], []⟩ hs hs'
    · obtain rfl := hshallow.unique hj
      cases hx.symm.trans hok
    · exact ⟨hcode, houtput, hx⟩
  · have hrun : run ⟨[], [], [], []⟩
        (outcomeSample ["--max-expansion-depth=2", "--no-directives"]) = ⟨some 0, "1\n#define M 1 = N\nM\n", [], none⟩ := by cbv
    refine ⟨hrun, ?_⟩
    obtain ⟨j, hj, -, hx, -⟩ | ⟨hcode, -⟩ := run_all_or_nothing ⟨[], [], [], []⟩ hp hp'
    · obtain rfl := hplain.unique hj
      rwa [hrun] at hx
    · rw [hrun] at hcode
      exact absurd rfl hcode

end TextMacros
