import Mathlib
import TextMacros.CommandLine.Run
import TextMacros.Proofs.Changes

/-!
# Definitions that override one another

Among raw definitions a signature keeps the place where it is first written and
takes the body that is written last. Where signatures name the same macro in
different ways, the one that comes up last decides, even if another of them is
written again later.
-/

set_option autoImplicit false

namespace TextMacros

/-! ### Texts in the order in which they come up -/

theorem Text.eraseDups_append_singleton (ts : List Text) (t : Text) :
    (ts ++ [t]).eraseDups = if t ∈ ts.eraseDups then ts.eraseDups else ts.eraseDups ++ [t] := by
  simp only [List.eraseDups_append, List.mem_eraseDups]
  split
  · next h => simp [List.removeAll, h]
  · next h => simp [List.removeAll, h, List.eraseDups_cons]

theorem Text.nodup_eraseDups (ts : List Text) : ts.eraseDups.Nodup := by
  induction ts using List.reverseRecOn with
  | nil => simp
  | append_singleton ts t ih =>
    rw [eraseDups_append_singleton]
    split
    · exact ih
    · next h =>
      refine List.nodup_append.mpr ⟨ih, by simp, fun s hs u hu heq => h ?_⟩
      rwa [← List.mem_singleton.mp hu, ← heq]

/-! ### Signatures and their bodies -/

namespace RawDefinitions

def signatures (ds : RawDefinitions) : List Text := ds.map Prod.fst

theorem signatures_append (ds : RawDefinitions) (d : Text × Text) :
    signatures (ds ++ [d]) = signatures ds ++ [d.1] := List.map_append

/-- The body that is written last for a signature. -/
def bodyOf (ds : RawDefinitions) (signature : Text) : Text :=
  ((ds.filter fun d => d.1 = signature).getLast?.map Prod.snd).getD []

theorem bodyOf_append (ds : RawDefinitions) (d : Text × Text) (signature : Text) :
    bodyOf (ds ++ [d]) signature = if d.1 = signature then d.2 else bodyOf ds signature := by
  rw [bodyOf, getLast?_filter_append]
  split <;> simp_all [bodyOf]

theorem mem_bodyOf {ds : RawDefinitions} {signature : Text} (h : signature ∈ ds.signatures) :
    (signature, ds.bodyOf signature) ∈ ds := by
  induction ds using List.reverseRecOn with
  | nil => cases h
  | append_singleton ds d ih =>
    rw [bodyOf_append, List.mem_append]
    split
    · next hd => exact .inr (by simp [← hd])
    · next hd =>
      refine .inl (ih ?_)
      simpa [signatures, Ne.symm hd] using h

theorem bodyOf_map {written : List Text} (body : Text → Text) {signature : Text}
    (h : signature ∈ written) :
    bodyOf (written.map fun s => (s, body s)) signature = body signature := by
  have hs : signature ∈ signatures (written.map fun s => (s, body s)) := by
    simpa [signatures] using h
  obtain ⟨s, -, hs⟩ := List.mem_map.mp (mem_bodyOf hs)
  obtain ⟨rfl, hbody⟩ := Prod.mk.inj hs
  exact hbody.symm

theorem put_map {written : List Text} (h : written.Nodup) (body : Text → Text)
    (signature last : Text) :
    put signature last (written.map fun s => (s, body s)) =
      (if signature ∈ written then written else written ++ [signature]).map fun s =>
        (s, if signature = s then last else body s) := by
  induction written with
  | nil => simp [put]
  | cons s written ih =>
    obtain ⟨hs, h⟩ := List.nodup_cons.mp h
    rw [List.map_cons, put]
    by_cases heq : s = signature
    · subst heq
      have hother : ∀ t ∈ written, body t = if s = t then last else body t := fun t ht => by
        have hne : s ≠ t := fun heq => hs (heq ▸ ht)
        rw [if_neg hne]
      simp only [if_true, List.mem_cons_self, List.map_cons]
      congr 1
      exact List.map_congr_left fun t ht => congrArg (Prod.mk t) (hother t ht)
    · rw [if_neg heq, ih h]
      have hmem : signature ∈ s :: written ↔ signature ∈ written := by simp [Ne.symm heq]
      simp only [hmem]
      split <;> simp [Ne.symm heq]

/-- Each signature once, with the body that is written last for it. -/
theorem ofList_eq (ds : RawDefinitions) :
    ofList ds = ds.signatures.eraseDups.map fun s => (s, ds.bodyOf s) := by
  induction ds using List.reverseRecOn with
  | nil => rfl
  | append_singleton ds d ih =>
    have hput : ofList (ds ++ [d]) = put d.1 d.2 (ofList ds) := by
      rw [ofList, List.foldl_append]
      rfl
    rw [hput, ih, put_map (Text.nodup_eraseDups _), signatures_append,
      Text.eraseDups_append_singleton]
    simp only [bodyOf_append]

end RawDefinitions

/-! ### The macro under a name -/

/-- The name of the macro that a written signature tells. -/
def Signature.nameOf (location : Location) (written : Text) : Option Text :=
  (parse location written).toOption.map name

/-- The last of some written signatures that tells a macro of the name. -/
def Signature.lastFor (location : Location) (name : Text) (written : List Text) : Option Text :=
  (written.filter fun s => nameOf location s = some name).getLast?

/-- The macro that a signature defines with its last body. -/
def RawDefinitions.macroOf (location : Location) (ds : RawDefinitions) (signature : Text) :
    Option Macro :=
  (rawMacro location signature (ds.bodyOf signature)).toOption

/-- Each of the definitions could be made alone. -/
def RawDefinitions.Valid (location : Location) (ds : RawDefinitions) : Prop :=
  ∀ d ∈ ds, ∃ m, rawMacro location d.1 d.2 = .ok m

section
variable {location : Location}

theorem Signature.nameOf_rawMacro {signature body : Text} {m : Macro}
    (h : rawMacro location signature body = .ok m) : nameOf location signature = some m.name := by
  obtain ⟨s, hs, h⟩ := bind_eq_ok.mp h
  obtain ⟨ts, -, h⟩ := bind_eq_ok.mp h
  obtain ⟨-, rfl⟩ := Macro.checked_eq_ok.mp h
  rw [nameOf, hs]
  rfl

theorem Signature.lastFor_append (name : Text) (written : List Text) (s : Text) :
    lastFor location name (written ++ [s]) =
      if nameOf location s = some name then some s else lastFor location name written := by
  rw [lastFor, getLast?_filter_append]
  simp only [decide_eq_true_eq, lastFor]

theorem Signature.mem_lastFor {name : Text} {written : List Text} {s : Text}
    (h : lastFor location name written = some s) :
    s ∈ written ∧ nameOf location s = some name := by
  simpa using List.mem_of_getLast? h

theorem Signature.lastFor_eq_none {name : Text} {written : List Text} :
    lastFor location name written = none ↔ ∀ s ∈ written, nameOf location s ≠ some name := by
  simp [lastFor]

open Signature in
/-- A registry of raw definitions binds a name to the last of them that tells it. -/
theorem Registry.ofRaw_binds {ds : RawDefinitions} (h : ds.Valid location) :
    ∃ r, Registry.ofRaw location ds = .ok r ∧ ∀ name, r.lookup name =
      (lastFor location name ds.signatures).bind (ds.macroOf location) := by
  induction ds using List.reverseRecOn with
  | nil => exact ⟨.empty, rfl, fun _ => rfl⟩
  | append_singleton ds d ih =>
    obtain ⟨r, hr, hlookup⟩ := ih fun e he => h e (List.mem_append_left _ he)
    obtain ⟨m, hm⟩ := h d (by simp)
    have hname := nameOf_rawMacro hm
    refine ⟨r.insert m, ?_, fun name => ?_⟩
    · rw [ofRaw] at hr
      rw [ofRaw, List.foldlM_append, hr]
      simp [bind, Except.bind, defineRaw_eq, hm, Except.map, pure, Except.pure]
    · rw [lookup_insert, hlookup, RawDefinitions.signatures_append, lastFor_append, hname]
      simp only [Option.some.injEq]
      split
      · simp [RawDefinitions.macroOf, RawDefinitions.bodyOf_append, hm, Except.toOption]
      · next hne =>
        refine Option.bind_congr fun s hs => ?_
        have hd : d.1 ≠ s := fun hd => hne (by
          have hs := (mem_lastFor hs).2
          rw [← hd, hname] at hs
          exact Option.some.inj hs)
        rw [RawDefinitions.macroOf, RawDefinitions.macroOf, RawDefinitions.bodyOf_append, if_neg hd]

/-- A pair of the joined definitions stands among the definitions itself. -/
theorem RawDefinitions.Valid.ofList {ds : RawDefinitions} (h : ds.Valid location) :
    (RawDefinitions.ofList ds).Valid location := by
  rw [ofList_eq]
  intro d hd
  obtain ⟨s, hs, rfl⟩ := List.mem_map.mp hd
  exact h _ (mem_bodyOf (List.mem_eraseDups.mp hs))

open Signature in
/-- Of the signatures that tell a name, the one that comes up last is decisive. -/
theorem Registry.ofRaw_ofList_binds {ds : RawDefinitions} (h : ds.Valid location) :
    ∃ r, Registry.ofRaw location (.ofList ds) = .ok r ∧ ∀ name, r.lookup name =
      (lastFor location name ds.signatures.eraseDups).bind (ds.macroOf location) := by
  obtain ⟨r, hr, hlookup⟩ := ofRaw_binds h.ofList
  refine ⟨r, hr, fun name => ?_⟩
  have hsignatures : (RawDefinitions.ofList ds).signatures = ds.signatures.eraseDups := by
    rw [RawDefinitions.signatures, RawDefinitions.ofList_eq, List.map_map]
    exact List.map_id _
  rw [hlookup, hsignatures]
  refine Option.bind_congr fun s hs => ?_
  rw [RawDefinitions.macroOf, RawDefinitions.macroOf, RawDefinitions.ofList_eq,
    RawDefinitions.bodyOf_map _ (mem_lastFor hs).1]

open Signature in
/-- It does not matter in which order signatures come up that are spelled in one way only. -/
theorem Signature.lastFor_eraseDups {written : List Text} (h : ∀ s ∈ written, ∀ t ∈ written,
    nameOf location s = nameOf location t → s = t) (name : Text) :
    lastFor location name written.eraseDups = lastFor location name written := by
  cases hs : lastFor location name written with
  | none =>
    rw [lastFor_eq_none] at hs ⊢
    exact fun s hmem => hs s (List.mem_eraseDups.mp hmem)
  | some s =>
    obtain ⟨hmem, hname⟩ := mem_lastFor hs
    cases ht : lastFor location name written.eraseDups with
    | none => exact absurd hname (lastFor_eq_none.mp ht s (List.mem_eraseDups.mpr hmem))
    | some t =>
      obtain ⟨hmem', hname'⟩ := mem_lastFor ht
      rw [h t (List.mem_eraseDups.mp hmem') s hmem (hname'.trans hname.symm)]

end

/-! ### Options of the command line -/

/-- The options are obeyed one by one, from left to right. -/
def Registry.ofOptions (options : List Text) : Except Error Registry :=
  options.foldlM (fun r o =>
    let (signature, body) := Arguments.rawDefinition o
    r.defineRaw .commandLine signature body) .empty

open Signature in
/-- The command line binds a name to the signature for it that comes up last,
with the body that this signature is given last. Options that are obeyed one by
one bind it to the signature that is written last. So the last option for a
name wins where all options for it spell the signature in one way. -/
theorem rawDefinitions_bind {options : List Text}
    (h : RawDefinitions.Valid .commandLine (options.map Arguments.rawDefinition)) :
    let ds : RawDefinitions := options.map Arguments.rawDefinition
    ∃ r q, Registry.ofRaw .commandLine (Arguments.rawDefinitions options) = .ok r ∧
      Registry.ofOptions options = .ok q ∧
      (∀ name, r.lookup name =
        (lastFor .commandLine name ds.signatures.eraseDups).bind (ds.macroOf .commandLine)) ∧
      (∀ name, q.lookup name =
        (lastFor .commandLine name ds.signatures).bind (ds.macroOf .commandLine)) ∧
      ((∀ s ∈ ds.signatures, ∀ t ∈ ds.signatures,
        nameOf .commandLine s = nameOf .commandLine t → s = t) →
        ∀ name, r.lookup name = q.lookup name) := by
  intro ds
  obtain ⟨r, hr, hlookup⟩ := Registry.ofRaw_ofList_binds h
  obtain ⟨q, hq, hlookup'⟩ := Registry.ofRaw_binds h
  refine ⟨r, q, hr, ?_, hlookup, hlookup', fun hone name => ?_⟩
  · rw [← hq, Registry.ofRaw, List.foldlM_map]
    rfl
  · rw [hlookup, hlookup', lastFor_eraseDups hone]

/-- The macro of a number that is given on the command line. -/
def numberMacro (name : Text) (parameters : Option (List Text)) (number : Text) : Macro :=
  ⟨name, parameters, [⟨.number, number, .commandLine, some false⟩], .commandLine⟩

def repeatedOptions : List Text := ["A=1", "B", "A=3"]

theorem rawDefinitions_bind_repeated :
    RawDefinitions.Valid .commandLine (repeatedOptions.map Arguments.rawDefinition) ∧
      (∀ s ∈ [Text.ofString "A", "B", "A"], ∀ t ∈ [Text.ofString "A", "B", "A"],
        Signature.nameOf .commandLine s = Signature.nameOf .commandLine t → s = t) ∧
      ∃ r q, Registry.ofRaw .commandLine (Arguments.rawDefinitions repeatedOptions) = .ok r ∧
        Registry.ofOptions repeatedOptions = .ok q ∧ (∀ name, r.lookup name = q.lookup name) ∧
        r.lookup "A" = some (numberMacro "A" none "3") := by
  have hds : repeatedOptions.map Arguments.rawDefinition =
      ([("A", "1"), ("B", "1"), ("A", "3")] : RawDefinitions) := by decide
  have hvalid : RawDefinitions.Valid .commandLine
      (repeatedOptions.map Arguments.rawDefinition) := by
    rw [hds]
    intro d hd
    simp only [List.mem_cons, List.not_mem_nil, or_false] at hd
    obtain rfl | rfl | rfl := hd
    · exact ⟨numberMacro "A" none "1", by cbv⟩
    · exact ⟨numberMacro "B" none "1", by cbv⟩
    · exact ⟨numberMacro "A" none "3", by cbv⟩
  have hone : ∀ s ∈ [Text.ofString "A", "B", "A"], ∀ t ∈ [Text.ofString "A", "B", "A"],
      Signature.nameOf .commandLine s = Signature.nameOf .commandLine t → s = t := by
    have hA : Signature.nameOf .commandLine "A" = some "A" := by cbv
    have hB : Signature.nameOf .commandLine "B" = some "B" := by cbv
    simp [hA, hB]
  obtain ⟨r, q, hr, hq, hlookup, -, hsame⟩ := rawDefinitions_bind hvalid
  refine ⟨hvalid, hone, r, q, hr, hq, hsame ?_, ?_⟩
  · rw [hds]
    exact hone
  · have hA : Registry.ofRaw .commandLine (Arguments.rawDefinitions repeatedOptions) =
      .ok ⟨[numberMacro "B" none "1", numberMacro "A" none "3"]⟩ := by cbv
    obtain rfl := Except.ok.inj (hr.symm.trans hA)
    decide

/-- A list without parameters is another signature of the same name. -/
def mixedOptions : List Text := ["A=1", "A()=2", "A=3"]

/-- The second option comes up after the first one, whose place the third one takes. -/
theorem rawDefinitions_bind_mixed : ¬ ∀ options : List Text,
    RawDefinitions.Valid .commandLine (options.map Arguments.rawDefinition) →
      ∀ r q, Registry.ofRaw .commandLine (Arguments.rawDefinitions options) = .ok r →
        Registry.ofOptions options = .ok q → ∀ name, r.lookup name = q.lookup name := by
  intro h
  have hvalid : RawDefinitions.Valid .commandLine (mixedOptions.map Arguments.rawDefinition) := by
    have hds : mixedOptions.map Arguments.rawDefinition =
        ([("A", "1"), ("A()", "2"), ("A", "3")] : RawDefinitions) := by decide
    rw [hds]
    intro d hd
    simp only [List.mem_cons, List.not_mem_nil, or_false] at hd
    obtain rfl | rfl | rfl := hd
    · exact ⟨numberMacro "A" none "1", by cbv⟩
    · exact ⟨numberMacro "A" (some []) "2", by cbv⟩
    · exact ⟨numberMacro "A" none "3", by cbv⟩
  have hr : Registry.ofRaw .commandLine (Arguments.rawDefinitions mixedOptions) =
      .ok ⟨[numberMacro "A" (some []) "2"]⟩ := by cbv
  have hq : Registry.ofOptions mixedOptions = .ok ⟨[numberMacro "A" none "3"]⟩ := by cbv
  exact absurd (h mixedOptions hvalid _ _ hr hq "A") (by decide)

end TextMacros
