import TextMacros.Proofs.Likeness

/-!
# Where tokens and failures come from

Expansion makes no tokens of its own. All that it yields was written in the
list or in a body, at the place that it still tells, and a failure tells the
place of a name that was written there. The argument is that expansion never
looks at where a token comes from: a list is like itself under every property
that no spacing changes.
-/

set_option autoImplicit false

namespace TextMacros

/-- A token of the list, or of the body of some macro. -/
inductive Registry.Supplies (r : Registry) (ts : List Token) : Token → Prop where
  | listed {t : Token} (ht : t ∈ ts) : Supplies r ts t
  | inBody {name : Text} {m : Macro} {t : Token} (hm : r.lookup name = some m) (ht : t ∈ m.body) :
      Supplies r ts t

/-- The same token, with a property. -/
def Token.Same (P : Token → Prop) (t u : Token) : Prop := t = u ∧ P t

section
variable {P : Token → Prop} {r : Registry}

theorem likeness_same (hP : ∀ t spaced, P t → P (t.withSpacing spaced)) :
    Likeness (Token.Same P) where
  kind h := congrArg Token.kind h.1
  name h _ := congrArg Token.text h.1
  spaced h := congrArg Token.spaced h.1
  withSpacing spaced h := ⟨congrArg (Token.withSpacing · spaced) h.1, hP _ spaced h.2⟩

theorem same_self_iff {ts : List Token} :
    List.Forall₂ (Token.Same P) ts ts ↔ ∀ t ∈ ts, P t := by
  rw [List.forall₂_same]
  simp [Token.Same]

theorem Registry.like_self (hr : ∀ name m, r.lookup name = some m → ∀ t ∈ m.body, P t) :
    r.Like (Token.Same P) r := by
  intro name
  cases hm : r.lookup name with
  | none => exact .none
  | some m => exact .some ⟨rfl, rfl, same_self_iff.mpr (hr name m hm)⟩

/-- What the tokens of a list have, and those of all bodies, the tokens that it expands to have,
and so has the name that it fails at. -/
theorem Expands.same (hP : ∀ t spaced, P t → P (t.withSpacing spaced))
    (hr : ∀ name m, r.lookup name = some m → ∀ t ∈ m.body, P t) {limit : Option Int} {depth : Int}
    {g : Guard} {afterSplice : Bool} {ts : List Token} {x : Except Error (List Token)}
    (h : Expands r limit depth g afterSplice ts x) (hts : ∀ t ∈ ts, P t) :
    Agree (FailsLike (Token.Same P)) (List.Forall₂ (Token.Same P)) x x := by
  obtain ⟨y, hy, hxy⟩ :=
    h.like (likeness_same hP) (Registry.like_self hr) (same_self_iff.mpr hts)
  rwa [← h.unique hy] at hxy

/-- The name at which an expansion fails has the property too. -/
theorem FailsLike.origin {e f : Error} (h : FailsLike (Token.Same P) e f) :
    ∃ t, P t ∧ t.kind = .identifier ∧ e.macroName = some t.text ∧ e.location = t.location := by
  cases h with
  | unterminated h hk | argumentCount h hk | recursionLimit h hk => exact ⟨_, h.2, hk, rfl, rfl⟩

/-- Nothing is asked of a name that is not defined. -/
theorem lookup_of_invocation?_error {g : Guard} {t : Token} {rest : List Token} {e : Error}
    (h : invocation? r g t rest = .error e) : ∃ m, r.lookup t.text = some m := by
  cases hm : r.lookup t.text with
  | none => simp [invocation?, Invocation.scan, hm] at h
  | some m => exact ⟨m, rfl⟩

theorem Expands.error_defined {limit : Option Int} {depth : Int} {g : Guard} {afterSplice : Bool}
    {ts : List Token} {e : Error} (h : Expands r limit depth g afterSplice ts (.error e)) :
    ∃ name m, e.macroName = some name ∧ r.lookup name = some m := by
  generalize hx : Except.error e = x at h
  induction h with
  | done => cases hx
  | @fault depth g afterSplice t rest e hi =>
    cases hx
    obtain ⟨m, hm⟩ := lookup_of_invocation?_error hi
    obtain rfl | ⟨expected, actual, rfl⟩ := invocation?_error hi
    · exact ⟨t.text, m, rfl, hm⟩
    · exact ⟨t.text, m, rfl, hm⟩
  | keep hi hr ih => exact ih (map_eq_error.mp hx.symm).symm
  | tooDeep hi hl hd =>
    cases hx
    obtain ⟨-, -, hf⟩ := found_of_invocation? hi
    exact ⟨_, _, rfl, hf.lookup⟩
  | abort hi hd hn ih => exact ih hx
  | splice hi hd hn hr ihn ihr => exact ihr (map_eq_error.mp hx.symm).symm

end

/-- But for its spacing, the token was written in the list or in a body. -/
def Registry.Traces (r : Registry) (ts : List Token) (u : Token) : Prop :=
  ∃ t, r.Supplies ts t ∧ u.kind = t.kind ∧ u.text = t.text ∧ u.location = t.location

theorem Registry.Supplies.traces {r : Registry} {ts : List Token} {t : Token}
    (h : r.Supplies ts t) : r.Traces ts t :=
  ⟨t, h, rfl, rfl, rfl⟩

/-- Every token that an expansion yields has the kind, the text and the place of one that was
written in the list or in a body. A failure concerns a macro that is defined, and has the place
of an identifier with the name of this macro that was written there. -/
theorem expand_provenance (r : Registry) (limit depth : Int) (g : Guard) (ts : List Token) :
    (∀ us, (expand r limit depth g ts).result = .ok us → ∀ u ∈ us, ∃ t, r.Supplies ts t ∧
      u.kind = t.kind ∧ u.text = t.text ∧ u.location = t.location) ∧
    ∀ e, (expand r limit depth g ts).result = .error e → ∃ t m, r.Supplies ts t ∧
      t.kind = .identifier ∧ r.lookup t.text = some m ∧
        e.macroName = some t.text ∧ e.location = t.location := by
  have hrun := expands_expand r limit depth g ts
  have hbodies : ∀ name m, r.lookup name = some m → ∀ t ∈ m.body, r.Traces ts t :=
    fun _ _ hm _ ht => (Registry.Supplies.inBody hm ht).traces
  have hlist : ∀ t ∈ ts, r.Traces ts t := fun _ ht => (Registry.Supplies.listed ht).traces
  have hsame := hrun.same (fun _ _ h => h) hbodies hlist
  constructor
  · intro us hus
    rw [hus] at hsame
    cases hsame with
    | ok h => exact same_self_iff.mp h
  · intro e he
    rw [he] at hrun hsame
    obtain ⟨name, m, hname, hm⟩ := hrun.error_defined
    cases hsame with
    | error h =>
      obtain ⟨u, ⟨t, ht, hkind, htext, hplace⟩, hk, hu, hl⟩ := h.origin
      obtain rfl : name = u.text := Option.some.inj (hname.symm.trans hu)
      rw [htext] at hm hu
      exact ⟨t, m, ht, hkind ▸ hk, hm, hu, hplace ▸ hl⟩

end TextMacros
