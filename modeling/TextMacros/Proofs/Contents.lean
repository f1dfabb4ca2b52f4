import TextMacros.Proofs.ArgumentReading
import TextMacros.Proofs.Results
import TextMacros.Proofs.Runs

/-!
# What an expansion contains

Expansion changes the spaces before tokens and where tokens stand, never
their kinds and texts. A property of kinds and texts that the list has, and
the bodies of the macros it invokes, is a property of the result.
-/

set_option autoImplicit false

namespace TextMacros

/-- A property of kinds and texts that every token of a list has. -/
def Throughout (P : TokenKind → Text → Prop) (ts : List Token) : Prop :=
  ∀ t ∈ ts, P t.kind t.text

section
variable {P : TokenKind → Text → Prop}

theorem throughout_nil : Throughout P [] := by simp [Throughout]

theorem throughout_cons {t : Token} {ts : List Token} :
    Throughout P (t :: ts) ↔ P t.kind t.text ∧ Throughout P ts := by
  simp [Throughout]

theorem throughout_append {ts us : List Token} :
    Throughout P (ts ++ us) ↔ Throughout P ts ∧ Throughout P us := by
  simp [Throughout, or_imp, forall_and]

theorem Throughout.drop {ts : List Token} (h : Throughout P ts) (n : Nat) :
    Throughout P (ts.drop n) :=
  fun t ht => h t (List.mem_of_mem_drop ht)

theorem Throughout.respace {ts : List Token} (h : Throughout P ts) (spaced : Option Bool) :
    Throughout P (respace spaced ts) := by
  cases ts with
  | nil => exact h
  | cons t ts =>
    obtain ⟨ht, hts⟩ := throughout_cons.mp h
    exact throughout_cons.mpr ⟨ht, hts⟩

theorem Throughout.substitute {bs : Bindings} {body : List Token} (hb : Throughout P body)
    (ha : ∀ t a, bs.argument? t = some a → Throughout P a) (afterArgument : Bool) :
    Throughout P (substitute bs afterArgument body) := by
  induction body generalizing afterArgument with
  | nil => exact throughout_nil
  | cons t ts ih =>
    obtain ⟨ht, hts⟩ := throughout_cons.mp hb
    simp only [TextMacros.substitute]
    split
    · refine throughout_cons.mpr ⟨?_, ih hts false⟩
      split <;> simpa using ht
    next a hl => exact throughout_append.mpr ⟨(ha t a hl).respace _, ih hts true⟩

end

theorem Bindings.mem_of_argument? {parameters : List Text} {arguments : List (List Token)}
    {t : Token} {a : List Token}
    (h : Bindings.argument? (parameters.zip arguments) t = some a) :
    t.kind = .identifier ∧ t.text ∈ parameters ∧ a ∈ arguments := by
  unfold argument? at h
  split at h
  next hk =>
    obtain ⟨before, after, hz, -⟩ := List.lookup_eq_some_iff.mp h
    have hmem : (t.text, a) ∈ parameters.zip arguments := by rw [hz]; simp
    exact ⟨hk, List.of_mem_zip hmem⟩
  · simp at h

theorem Invocation.mem_of_mem_fitArguments {n : Nat} {arguments : List (List Token)}
    {a : List Token} (h : a ∈ fitArguments n arguments) : a ∈ arguments := by
  unfold fitArguments at h
  split at h
  · simp at h
  · exact h

/-- What an invocation is replaced by comes from the body of its macro and
from its arguments, of which the layout is left out. -/
theorem Invocation.Found.throughout {P : TokenKind → Text → Prop} {r : Registry} {name : Token}
    {rest : List Token} {i : Invocation} (h : Found r name rest i)
    (hb : Throughout P i.callee.body)
    (hr : ∀ t ∈ rest, t.isLayout = false → P t.kind t.text) : Throughout P i.substitution := by
  cases h with
  | object callee hl hp => simpa [substitution, objectLike, hp] using hb
  | function callee parameters opening inner list hl hp hd ho hr' hn =>
    simp only [substitution, hp, Option.getD_some]
    refine Throughout.substitute hb (fun t a ha u hu => ?_) false
    have hm : a ∈ list.toList := mem_of_mem_fitArguments (Bindings.mem_of_argument? ha).2.2
    have hi : ∀ u ∈ inner, u ∈ rest := fun u hu =>
      List.mem_of_mem_drop (hd ▸ List.mem_cons_of_mem opening hu)
    obtain ⟨hu, hlay⟩ := (ArgumentList.reads_of_read hr').mem a hm u hu
    exact hr u (hi u hu) hlay

/-- The bodies that matter are those of the macros whose names have the property. -/
theorem Expands.throughout {P : TokenKind → Text → Prop} {r : Registry} {limit : Option Int}
    {depth : Int} {g : Guard} {afterSplice : Bool} {ts us : List Token}
    (hb : ∀ name m, P .identifier name → r.lookup name = some m → Throughout P m.body)
    (h : Expands r limit depth g afterSplice ts (.ok us)) (hts : Throughout P ts) :
    Throughout P us := by
  generalize hx : Except.ok us = x at h
  induction h generalizing us with
  | done => cases hx; exact throughout_nil
  | fault | tooDeep | abort => cases hx
  | keep hi hr ih =>
    obtain ⟨ht, hrest⟩ := throughout_cons.mp hts
    obtain ⟨vs, hvs, rfl⟩ := map_eq_ok.mp hx.symm
    exact throughout_cons.mpr ⟨by simpa using ht, ih hrest hvs.symm⟩
  | splice hi hd hn hr ihn ihr =>
    obtain ⟨ht, hrest⟩ := throughout_cons.mp hts
    obtain ⟨vs, hvs, rfl⟩ := map_eq_ok.mp hx.symm
    obtain ⟨hk, -, hf⟩ := found_of_invocation? hi
    have hbody := hf.throughout (hb _ _ (hk ▸ ht) hf.lookup) fun u hu _ => hrest u hu
    exact throughout_append.mpr ⟨(ihn hbody rfl).respace _, ihr (hrest.drop _) hvs.symm⟩

end TextMacros
