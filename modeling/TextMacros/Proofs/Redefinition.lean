import Mathlib
import TextMacros.Proofs.Passages
import TextMacros.Proofs.Writing

/-!
# Redefinitions that are not reported

A definition with the same parameters and the same body is taken for the same
macro, though its body may stand elsewhere and behind other white space. Each
body is brought to a normal form, in which nothing is known to stand before
its first token. Expansion yields the same under the normal forms.
-/

set_option autoImplicit false

namespace TextMacros

/-! ### Normal bodies -/

/-- The space before the first token of a body belongs to the definition only. -/
def Macro.normal (m : Macro) : Macro := { m with body := respace (some false) m.body }

def Registry.normal (r : Registry) : Registry := ⟨r.macros.map Macro.normal⟩

def Invocation.normal (i : Invocation) : Invocation := { i with callee := i.callee.normal }

namespace Registry

theorem lookup_normal (r : Registry) (name : Text) :
    r.normal.lookup name = (r.lookup name).map Macro.normal :=
  List.find?_map

theorem erase_normal (r : Registry) (name : Text) : (r.erase name).normal = r.normal.erase name := by
  rw [normal, erase, erase, normal, List.filter_map]
  rfl

theorem insert_normal (r : Registry) (m : Macro) :
    (r.insert m).normal = r.normal.insert m.normal := by
  have herase : (r.erase m.name).macros.map Macro.normal = (r.normal.erase m.name).macros :=
    congrArg macros (r.erase_normal m.name)
  rw [normal, insert, List.map_cons, herase]
  rfl

end Registry

theorem respace_respace (s s' : Option Bool) (ts : List Token) :
    respace s (respace s' ts) = respace s ts := by
  cases ts <;> rfl

/-- Whatever takes the place of the first token takes over the space before it. -/
theorem substitute_respace (bs : Bindings) (s : Option Bool) (body : List Token) :
    ∃ s', substitute bs false (respace s body) = respace s' (substitute bs false body) := by
  cases body with
  | nil => exact ⟨s, rfl⟩
  | cons t ts =>
    have harg : bs.argument? (t.withSpacing s) = bs.argument? t := rfl
    rw [respace, substitute, substitute, harg]
    cases bs.argument? t with
    | none => exact ⟨s, rfl⟩
    | some argument =>
      cases argument with
      | cons u us => exact ⟨s, rfl⟩
      | nil =>
        obtain ⟨s', hs'⟩ := exists_respace_self (substitute bs true ts)
        exact ⟨s', hs'.symm⟩

namespace Invocation

theorem substitution_normal (i : Invocation) :
    ∃ s, i.normal.substitution = respace s i.substitution := by
  cases hp : i.callee.parameters with
  | none => exact ⟨some false, by simp only [substitution, normal, Macro.normal, hp]⟩
  | some parameters =>
    obtain ⟨s, hs⟩ := substitute_respace (parameters.zip (i.arguments.getD [])) (some false)
      i.callee.body
    exact ⟨s, by simpa only [substitution, normal, Macro.normal, hp] using hs⟩

theorem call_normal (callee : Macro) (parameters : List Text) (name : Token) (breaks : Nat)
    (inner : List Token) :
    call callee.normal parameters name breaks inner =
      (call callee parameters name breaks inner).map normal := by
  unfold call
  cases ArgumentList.read 0 inner with
  | none => rfl
  | some list =>
    dsimp only
    split <;> rfl

theorem scan_normal (r : Registry) (name : Token) (rest : List Token) :
    scan r.normal name rest = (scan r name rest).map (Option.map normal) := by
  unfold scan
  rw [r.lookup_normal]
  split
  · rfl
  · cases r.lookup name.text with
    | none => rfl
    | some callee =>
      have hp : callee.normal.parameters = callee.parameters := rfl
      simp only [Option.map_some, hp]
      cases callee.parameters with
      | none => rfl
      | some parameters =>
        dsimp only
        split
        · rfl
        · split
          · rfl
          · rw [call_normal]
            cases call callee parameters name _ _ <;> rfl

end Invocation

theorem invocation?_normal (r : Registry) (g : Guard) (name : Token) (rest : List Token) :
    invocation? r.normal g name rest = (invocation? r g name rest).map (Option.map .normal) := by
  unfold invocation?
  split
  · exact Invocation.scan_normal r name rest
  · rfl

/-- The space before a body is overwritten where the body is spliced in. -/
theorem Expands.normal {r : Registry} {limit : Option Int} {depth : Int} {g : Guard}
    {afterSplice : Bool} {ts : List Token} {x : Except Error (List Token)}
    (h : Expands r limit depth g afterSplice ts x) :
    Expands r.normal limit depth g afterSplice ts x := by
  have hfound : ∀ {g t rest i}, invocation? r g t rest = .ok (some i) →
      invocation? r.normal g t rest = .ok (some i.normal) := by
    intro g t rest i hi
    rw [invocation?_normal, hi]
    rfl
  induction h with
  | done => exact .done
  | fault hi => exact .fault (by rw [invocation?_normal, hi]; rfl)
  | keep hi hr ih => exact .keep (by rw [invocation?_normal, hi]; rfl) ih
  | tooDeep hi hl hd => exact .tooDeep (hfound hi) hl hd
  | @abort depth g afterSplice t rest i e hi hd hn ih =>
    obtain ⟨s, hs⟩ := i.substitution_normal
    obtain ⟨s', hrun⟩ := ih.respaced s
    exact .abort (hfound hi) hd (hs.symm ▸ hrun)
  | @splice depth g afterSplice t rest i body x hi hd hn hr ihn ihr =>
    obtain ⟨s, hs⟩ := i.substitution_normal
    obtain ⟨s', hrun⟩ := ihn.respaced s
    rw [← respace_respace _ s' body]
    exact .splice (hfound hi) hd (hs.symm ▸ hrun) ihr

/-! ### Registries with the same bodies -/

/-- The macros have the same names, parameters and bodies, space within the bodies included. -/
def Macro.SameBody (m n : Macro) : Prop := m.normal.Like Token.Moved n.normal

def Registry.SameBodies (r q : Registry) : Prop := r.normal.Like Token.Moved q.normal

/-- No token of a body that was read from a text is next to an unknown neighbour. -/
def Macro.Lexed (m : Macro) : Prop := ∀ t ∈ m.body, t.spaced ≠ none

instance (m : Macro) : Decidable m.Lexed :=
  inferInstanceAs (Decidable (∀ t ∈ m.body, t.spaced ≠ none))

theorem Macro.sameBody_refl (m : Macro) : m.SameBody m := ⟨rfl, rfl, moved_refl _⟩

theorem moved_of_shape {t u : Token} (h : Macro.shape t = Macro.shape u) (ht : t.spaced ≠ none)
    (hu : u.spaced ≠ none) : t.Moved u := by
  simp only [Macro.shape, Prod.mk.injEq, decide_eq_decide] at h
  obtain ⟨hk, hx, hs⟩ := h
  refine ⟨hk, hx, ?_⟩
  cases t with | mk _ _ _ s =>
  cases u with | mk _ _ _ s' =>
  cases s with
  | none => exact absurd rfl ht
  | some s =>
    cases s' with
    | none => exact absurd rfl hu
    | some s' => cases s <;> cases s' <;> simp_all

theorem moved_of_map_shape {ts us : List Token} (h : ts.map Macro.shape = us.map Macro.shape)
    (ht : ∀ t ∈ ts, t.spaced ≠ none) (hu : ∀ u ∈ us, u.spaced ≠ none) :
    List.Forall₂ Token.Moved ts us := by
  induction ts generalizing us with
  | nil =>
    obtain rfl : us = [] := List.map_eq_nil_iff.mp h.symm
    exact .nil
  | cons t ts ih =>
    obtain ⟨u, us, rfl, htu, hs⟩ := List.map_eq_cons_iff.mp h.symm
    have hhead : t.Moved u := moved_of_shape htu.symm (ht t (by simp)) (hu u (by simp))
    exact .cons hhead (ih hs.symm (fun v hv => ht v (by simp [hv])) fun v hv => hu v (by simp [hv]))

/-- Equal definitions of lexed bodies tell the bodies but for the space before them. -/
theorem Macro.sameBody_of_sameDefinition {m n : Macro} (hname : m.name = n.name) (hm : m.Lexed)
    (hn : n.Lexed) (h : m.sameDefinition n = true) : m.SameBody n := by
  obtain ⟨hp, hb⟩ : m.parameters = n.parameters ∧ bodyShape m.body = bodyShape n.body := by
    simpa [sameDefinition] using h
  refine ⟨hname, hp, ?_⟩
  show List.Forall₂ Token.Moved (respace (some false) m.body) (respace (some false) n.body)
  unfold Lexed at hm hn
  generalize m.body = ts at hm hb
  generalize n.body = us at hn hb
  cases ts with
  | nil =>
    cases us with
    | nil => exact .nil
    | cons u us => cases hb
  | cons t ts =>
    cases us with
    | nil => cases hb
    | cons u us =>
      simp only [bodyShape, List.cons.injEq, Prod.mk.injEq, and_true] at hb
      obtain ⟨⟨hk, hx⟩, hs⟩ := hb
      exact .cons ⟨hk, hx, rfl⟩ (moved_of_map_shape hs (fun v hv => hm v (by simp [hv]))
        fun v hv => hn v (by simp [hv]))

namespace Registry.SameBodies
variable {r q : Registry}

theorem refl (r : Registry) : r.SameBodies r := r.normal.like_refl

theorem insert (h : r.SameBodies q) {m n : Macro} (hm : m.SameBody n) :
    (r.insert m).SameBodies (q.insert n) := by
  rw [SameBodies, insert_normal, insert_normal]
  exact Like.insert h hm

theorem erase (h : r.SameBodies q) (name : Text) : (r.erase name).SameBodies (q.erase name) := by
  rw [SameBodies, erase_normal, erase_normal]
  exact Like.erase h name

theorem define (h : r.SameBodies q) (m : Macro) :
    Agree Error.SameCause (fun a b => a.1.SameBodies b.1) (r.define m) (q.define m) := by
  unfold Registry.define
  cases m.check with
  | error e => exact .error ⟨rfl, rfl⟩
  | ok _ => exact .ok (h.insert m.sameBody_refl)

theorem apply (h : r.SameBodies q) (d : Directive) :
    Agree Error.SameCause (fun a b => a.1.SameBodies b.1) (d.apply r) (d.apply q) := by
  unfold Directive.apply
  split
  · cases d.definition with
    | error e => exact .error ⟨rfl, rfl⟩
    | ok m => exact h.define m
  · cases d.nameToken with
    | error e => exact .error ⟨rfl, rfl⟩
    | ok name => exact .ok (h.erase name.1.text)

theorem expand (h : r.SameBodies q) (limit depth : Int) (g : Guard) (ts : List Token) :
    Agree (FailsLike Token.Moved) (List.Forall₂ Token.Moved)
      (TextMacros.expand r limit depth g ts).result
      (TextMacros.expand q limit depth g ts).result := by
  have hr : Expands r.normal (some limit) depth g false ts
      (TextMacros.expand r limit depth g ts).result := (expands_expand r limit depth g ts).normal
  have hq : Expands q.normal (some limit) depth g false ts
      (TextMacros.expand q limit depth g ts).result := (expands_expand q limit depth g ts).normal
  obtain ⟨y, hy, hxy⟩ := hr.like likeness_moved h (moved_refl ts)
  rwa [hy.unique hq] at hxy

end Registry.SameBodies

/-! ### Processing under registries with the same bodies -/

/-- The same tokens up to their places, and a failure of the same cause if there is one. -/
structure Processed.Like (p q : Processed) : Prop where
  tokens : List.Forall₂ Token.Moved p.tokens q.tokens
  failure : Option.Rel Error.SameCause p.failure q.failure

namespace Processed

theorem Like.written {p q : Processed} (h : p.Like q) :
    Agree Error.SameCause Eq p.written q.written := by
  have hfailure : Option.Rel Error.SameCause p.failure q.failure := h.failure
  unfold Processed.written
  rw [render_moved h.tokens]
  cases render q.tokens with
  | error e => exact .error ⟨rfl, rfl⟩
  | ok text =>
    generalize p.failure = e at hfailure
    generalize q.failure = f at hfailure
    cases hfailure with
    | none => exact .ok rfl
    | some hef => exact .error hef

theorem Like.after {p q : Processed} (h : p.Like q) {ts us : List Token}
    (hts : List.Forall₂ Token.Moved ts us) (rs ss : List Redefinition) :
    (p.after ts rs).Like (q.after us ss) :=
  ⟨append_like hts h.tokens, h.failure⟩

theorem like_failed {r q : Registry} {g g' : Guard} {e f : Error} (h : e.SameCause f)
    {ts us : List Token} (hts : List.Forall₂ Token.Moved ts us) :
    Like ⟨ts, some e, [], r, g⟩ ⟨us, some f, [], q, g'⟩ :=
  ⟨hts, .some h⟩

theorem like_ofExpanded {r q : Registry} {x y : Expanded}
    (h : Agree (FailsLike Token.Moved) (List.Forall₂ Token.Moved) x.result y.result) :
    (ofExpanded r x).Like (ofExpanded q y) := by
  unfold ofExpanded
  generalize x.result = a at h
  generalize y.result = b at h
  cases h with
  | ok hts => exact ⟨hts, .none⟩
  | error hef => exact like_failed hef.sameCause .nil

end Processed

theorem Chunks.process_sameBodies {r q : Registry} (h : r.SameBodies q) (limit : Int)
    (failure : Option Error) (c : Chunks) :
    (c.process limit failure r []).Like (c.process limit failure q []) := by
  induction c generalizing r q with
  | last chunk =>
    cases failure with
    | some e => exact Processed.like_failed ⟨rfl, rfl⟩ .nil
    | none => exact Processed.like_ofExpanded (h.expand limit 0 [] chunk)
  | cut chunk d lineBreak rest ih =>
    have hchunk := h.expand limit 0 [] chunk
    have happly := h.apply d
    rw [process, process, guard_expand, guard_expand]
    generalize (expand r limit 0 [] chunk).result = x at hchunk
    generalize (expand q limit 0 [] chunk).result = y at hchunk
    cases hchunk with
    | error hef => exact Processed.like_failed hef.sameCause .nil
    | ok hts =>
      generalize d.apply r = a at happly
      generalize d.apply q = b at happly
      cases happly with
      | error hef => exact Processed.like_failed hef hts
      | ok hbelow => exact (ih hbelow).after (append_like hts (moved_refl lineBreak)) _ _

theorem process_sameBodies {r q : Registry} (h : r.SameBodies q) (c : Config) (s : TokenStream) :
    (process c r [] s).Like (process c q [] s) := by
  unfold process
  split
  · exact Chunks.process_sameBodies h c.depth s.failure _
  · cases s.failure with
    | some e => exact Processed.like_failed ⟨rfl, rfl⟩ .nil
    | none => exact Processed.like_ofExpanded (h.expand c.depth 0 [] s.tokens)

theorem expandInput_sameBodies {r q : Registry} (h : r.SameBodies q) (c : Config) (input : Input) :
    Agree Failure.SameCause Eq (expandInput r c input).result (expandInput q c input).result := by
  unfold expandInput
  cases c.fault? with
  | some fault => exact .error rfl
  | none =>
    cases input.decode with
    | error e => exact .error ⟨rfl, rfl⟩
    | ok t =>
      have hwritten : Agree Error.SameCause Eq (process c r [] (lexText .text t)).written
          (process c q [] (lexText .text t)).written := (process_sameBodies h c _).written
      have hreported : Agree Error.ReportedAs Eq (process c r [] (lexText .text t)).written
          ((process c q [] (lexText .text t)).written.mapError .text) :=
        hwritten.mapError_right fun _ _ hef => hef
      exact hreported.mapError_left fun _ _ hef => hef

/-- A redefinition that goes unreported changes no expansion. -/
theorem expand_silent_redefinition (r : Registry) {m n : Macro} (hname : m.name = n.name)
    (hm : m.Lexed) (hn : n.Lexed) (hs : m.sameDefinition n = true) (c : Config) (input : Input) :
    (r.insert m).redefinition n = none ∧
      Agree Failure.SameCause Eq (expandInput (r.insert m) c input).result
        (expandInput (r.insert n) c input).result := by
  have hsame : (r.insert m).SameBodies (r.insert n) :=
    (Registry.SameBodies.refl r).insert (Macro.sameBody_of_sameDefinition hname hm hn hs)
  refine ⟨?_, expandInput_sameBodies hsame c input⟩
  have hbound : (r.insert m).lookup n.name = some m := by rw [Registry.lookup_insert, if_pos hname]
  rw [Registry.redefinition, hbound]
  exact if_pos hs

/-- Two bodies of one shape, the second one behind white space and in another place. -/
def shiftedSample (spaced : Bool) (row : Int) : Macro :=
  ⟨"F", some ["a"], [⟨.identifier, "a", Source.text.locate row 12, some spaced⟩,
    ⟨.punctuation, "+", Source.text.locate row 14, some true⟩,
    ⟨.identifier, "G", Source.text.locate row 15, some false⟩], Source.text.locate row 0⟩

theorem expand_silent_redefinition_sample :
    shiftedSample false 0 ≠ shiftedSample true 7 ∧
      (Registry.empty.insert (shiftedSample false 0)).redefinition (shiftedSample true 7) = none ∧
      (expandInput (Registry.empty.insert (shiftedSample true 7)) ⟨200, true⟩
        (.text "#define G 1\n-F()-F(2)\n")).result = .ok "\n-+1-2 +1\n" := by
  have hrun : (expandInput (Registry.empty.insert (shiftedSample false 0)) ⟨200, true⟩
      (.text "#define G 1\n-F()-F(2)\n")).result = .ok "\n-+1-2 +1\n" := by cbv
  obtain ⟨hsilent, hagree⟩ := expand_silent_redefinition .empty (m := shiftedSample false 0)
    (n := shiftedSample true 7) rfl (by decide) (by decide) (by decide) ⟨200, true⟩
    (.text "#define G 1\n-F()-F(2)\n")
  rw [hrun] at hagree
  obtain ⟨text, htext, rfl⟩ := hagree.of_ok
  exact ⟨by decide, hsilent, htext⟩

end TextMacros
