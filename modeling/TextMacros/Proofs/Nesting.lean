import Mathlib.Data.Finset.Card
import TextMacros.Proofs.Results
import TextMacros.Proofs.Runs

/-!
# Nested expansions

The macros whose expansions are nested in one another at any moment of a run
are the guarded ones. They are different macros of the registry, so nesting
goes no deeper than there are macros, and the run ends without any limit.
-/

set_option autoImplicit false

namespace TextMacros

namespace Registry

/-- The names that have a macro, each of them once. -/
def nameSet (r : Registry) : Finset Text := (r.macros.map Macro.name).toFinset

theorem mem_nameSet {r : Registry} {name : Text} :
    name ∈ r.nameSet ↔ ∃ m, r.lookup name = some m ∧ m.name = name := by
  constructor
  · intro h
    obtain ⟨m, hm, hn⟩ : ∃ m ∈ r.macros, m.name = name := by simpa [nameSet] using h
    cases hl : r.lookup name with
    | none => exact absurd hn (by simpa using List.find?_eq_none.mp hl m hm)
    | some found => exact ⟨found, rfl, name_of_lookup hl⟩
  · rintro ⟨m, hl, hn⟩
    simpa [nameSet] using ⟨m, List.mem_of_find?_eq_some hl, hn⟩

/-- How many macros may still be entered. -/
def unguarded (r : Registry) (g : Guard) : Nat := (r.nameSet \ g.toFinset).card

theorem unguarded_cons_lt {r : Registry} {g : Guard} {name : Text} (hn : name ∈ r.nameSet)
    (hg : name ∉ g) : r.unguarded (name :: g) < r.unguarded g := by
  apply Finset.card_lt_card
  rw [Finset.ssubset_iff_of_subset]
  · exact ⟨name, by simp [hn, hg], by simp⟩
  · exact Finset.sdiff_subset_sdiff le_rfl (by simp)

theorem unguarded_nil (r : Registry) : r.unguarded [] = r.nameSet.card := by
  simp [unguarded]

end Registry

theorem Invocation.Found.mem_nameSet {r : Registry} {t : Token} {rest : List Token}
    {i : Invocation} (h : Found r t rest i) : t.text ∈ r.nameSet :=
  Registry.mem_nameSet.mpr ⟨i.callee, h.lookup, h.name⟩

/-- A call of the expander on what is left of a list. -/
structure Call where
  depth : Int
  guard : Guard
  afterSplice : Bool
  tokens : List Token

/-- The calls of a run over `ts`, each with the names of the macros whose
expansion it belongs to, the innermost first. -/
inductive Chain (r : Registry) (limit : Int) (ts : List Token) : List Text → Call → Prop where
  | start : Chain r limit ts [] ⟨0, [], false, ts⟩
  | keep {names : List Text} {depth : Int} {g : Guard} {afterSplice : Bool} {t : Token}
      {rest : List Token} (h : Chain r limit ts names ⟨depth, g, afterSplice, t :: rest⟩)
      (hi : invocation? r g t rest = .ok none) :
      Chain r limit ts names ⟨depth, g, false, rest⟩
  | enter {names : List Text} {depth : Int} {g inner : Guard} {afterSplice : Bool} {t : Token}
      {rest : List Token} {i : Invocation}
      (h : Chain r limit ts names ⟨depth, g, afterSplice, t :: rest⟩)
      (hi : invocation? r g t rest = .ok (some i)) (hd : depth + 1 ≤ limit)
      (he : g.enter? i.callee.name = some inner) :
      Chain r limit ts (i.callee.name :: names) ⟨depth + 1, inner, false, i.substitution⟩
  | resume {names : List Text} {depth : Int} {g inner : Guard} {afterSplice : Bool} {t : Token}
      {rest body : List Token} {i : Invocation}
      (h : Chain r limit ts names ⟨depth, g, afterSplice, t :: rest⟩)
      (hi : invocation? r g t rest = .ok (some i)) (hd : depth + 1 ≤ limit)
      (he : g.enter? i.callee.name = some inner)
      (hx : (expandFrom r limit (depth + 1) inner false i.substitution).result = .ok body) :
      Chain r limit ts names
        ⟨depth, (expandFrom r limit (depth + 1) inner false i.substitution).guard.leave i.callee.name,
          true, rest.drop i.following⟩

/-- The guard holds the names of a chain, which are those of different macros. -/
structure Guarded (r : Registry) (names : List Text) (c : Call) : Prop where
  distinct : names.Nodup
  defined : ∀ n ∈ names, n ∈ r.nameSet
  guard : c.guard = names
  depth : c.depth = names.length

namespace Guarded
variable {r : Registry} {names : List Text} {c : Call}

/-- The next macro to be entered is none of those on the chain. -/
theorem fresh {depth : Int} {g : Guard} {afterSplice : Bool} {t : Token} {rest : List Token}
    {i : Invocation} (h : Guarded r names ⟨depth, g, afterSplice, t :: rest⟩)
    (hi : invocation? r g t rest = .ok (some i)) :
    i.callee.name ∉ names ∧ i.callee.name ∈ r.nameSet := by
  obtain ⟨-, hg, hf⟩ := found_of_invocation? hi
  rw [hf.name]
  exact ⟨h.guard ▸ hg, hf.mem_nameSet⟩

theorem length_le (h : Guarded r names c) : names.length ≤ r.nameSet.card := by
  rw [← List.toFinset_card_of_nodup h.distinct]
  exact Finset.card_le_card fun n hn => h.defined n (List.mem_toFinset.mp hn)

end Guarded

theorem Chain.guarded {r : Registry} {limit : Int} {ts : List Token} {names : List Text}
    {c : Call} (h : Chain r limit ts names c) : Guarded r names c := by
  induction h with
  | start => exact ⟨.nil, by simp, rfl, rfl⟩
  | keep h hi ih => exact ⟨ih.distinct, ih.defined, ih.guard, ih.depth⟩
  | enter h hi hd he ih =>
    obtain ⟨hnew, hdef⟩ := ih.fresh hi
    obtain rfl := ih.guard
    rw [Guard.enter?_of_not_mem hnew] at he
    obtain rfl := Option.some.inj he
    refine ⟨List.nodup_cons.mpr ⟨hnew, ih.distinct⟩, ?_, rfl, ?_⟩
    · simpa [hdef] using ih.defined
    · have := ih.depth
      simp only at this
      simp [this]
  | resume h hi hd he hx ih =>
    obtain ⟨hnew, -⟩ := ih.fresh hi
    obtain rfl := ih.guard
    rw [Guard.enter?_of_not_mem hnew] at he
    obtain rfl := Option.some.inj he
    refine ⟨ih.distinct, ih.defined, ?_, ih.depth⟩
    simp only [(expandFrom_spec _ _ _ _ _ _).2]
    exact Guard.leave_cons hnew

namespace Expands

/-- An expansion fails at an invocation, or at its limit. -/
theorem error_cause {r : Registry} {limit : Option Int} {depth : Int} {g : Guard}
    {afterSplice : Bool} {ts : List Token} {e : Error}
    (h : Expands r limit depth g afterSplice ts (.error e)) :
    (∃ l n, e = .unterminatedInvocation l n) ∨ (∃ l n a b, e = .argumentCount l n a b) ∨
      ∃ l n most, e = .recursionLimit l n most ∧ limit = some most := by
  generalize hx : Except.error e = x at h
  induction h with
  | done => cases hx
  | fault hi =>
    cases hx
    rcases invocation?_error hi with he | ⟨expected, actual, he⟩
    · exact .inl ⟨_, _, he⟩
    · exact .inr (.inl ⟨_, _, _, _, he⟩)
  | keep hi hr ih => exact ih (map_eq_error.mp hx.symm).symm
  | tooDeep hi hl hd => cases hx; exact .inr (.inr ⟨_, _, _, rfl, hl⟩)
  | abort hi hd hn ih => exact ih hx
  | splice hi hd hn hr ihn ihr => exact ihr (map_eq_error.mp hx.symm).symm

/-- Entering a macro leaves fewer to enter, and going on leaves fewer tokens. -/
theorem exists_unlimited (r : Registry) (depth : Int) (g : Guard) (afterSplice : Bool)
    (ts : List Token) : ∃ x, Expands r none depth g afterSplice ts x := by
  match ts with
  | [] => exact ⟨_, .done⟩
  | t :: rest =>
    cases hi : invocation? r g t rest with
    | error e => exact ⟨_, .fault hi⟩
    | ok found =>
      cases found with
      | none =>
        obtain ⟨x, hx⟩ := exists_unlimited r depth g false rest
        exact ⟨_, .keep hi hx⟩
      | some i =>
        obtain ⟨-, hg, hf⟩ := found_of_invocation? hi
        have hless := Registry.unguarded_cons_lt (hf.mem_nameSet) hg
        obtain ⟨nested, hn⟩ := exists_unlimited r (depth + 1) (t.text :: g) false i.substitution
        cases nested with
        | error e => exact ⟨_, .abort hi (by simp) hn⟩
        | ok body =>
          obtain ⟨x, hx⟩ := exists_unlimited r depth g true (rest.drop i.following)
          exact ⟨_, .splice hi (by simp) hn hx⟩
  termination_by (r.unguarded g, ts.length)
  decreasing_by
    · exact Prod.Lex.right _ (by simp)
    · exact Prod.Lex.left _ _ hless
    · exact Prod.Lex.right _ (by simp only [List.length_cons, List.length_drop]; omega)

/-- A limit that leaves room for every macro not yet entered is never met. -/
theorem limited {r : Registry} {depth : Int} {g : Guard} {afterSplice : Bool} {ts : List Token}
    {x : Except Error (List Token)} (h : Expands r none depth g afterSplice ts x) {limit : Int}
    (hl : depth + r.unguarded g ≤ limit) : Expands r (some limit) depth g afterSplice ts x := by
  generalize hnone : (none : Option Int) = unlimited at h
  induction h with
  | done => exact .done
  | fault hi => exact .fault hi
  | keep hi hr ih => exact .keep hi (ih hl)
  | tooDeep hi hl' hd => simp [← hnone] at hl'
  | abort hi hd hn ih =>
    obtain ⟨-, hg, hf⟩ := found_of_invocation? hi
    have hless := Registry.unguarded_cons_lt (hf.mem_nameSet) hg
    refine .abort hi ?_ (ih (by omega))
    rintro most ⟨⟩
    omega
  | splice hi hd hn hr ihn ihr =>
    obtain ⟨-, hg, hf⟩ := found_of_invocation? hi
    have hless := Registry.unguarded_cons_lt (hf.mem_nameSet) hg
    refine .splice hi ?_ (ihn (by omega)) (ihr hl)
    rintro most ⟨⟩
    omega

end Expands

/-- Along every chain of nested expansions the macros differ and are the
guarded ones, and so is the next one to be entered; no guarded macro is ever
entered. The run without a limit ends, never for its depth, and every limit
that is not below the number of macros gives what it gives. -/
theorem expansion_nests_distinct_macros (r : Registry) (ts : List Token) :
    (∀ limit names c, Chain r limit ts names c →
      names.Nodup ∧ (∀ n ∈ names, ∃ m, r.lookup n = some m ∧ m.name = n) ∧
        (∀ n, n ∈ c.guard ↔ n ∈ names) ∧ c.depth = names.length ∧
        names.length ≤ r.nameSet.card ∧
        ∀ t rest i, c.tokens = t :: rest → invocation? r c.guard t rest = .ok (some i) →
          i.callee.name ∉ names ∧ r.lookup i.callee.name = some i.callee) ∧
    (∀ limit location name,
      (expand r limit 0 [] ts).result ≠ .error (.reentered location name)) ∧
    ∃ x, Expands r none 0 [] false ts x ∧
      (∀ location name most, x ≠ .error (.recursionLimit location name most)) ∧
      ∀ limit, (r.nameSet.card : Int) ≤ limit → (expand r limit 0 [] ts).result = x := by
  refine ⟨fun limit names c h => ?_, fun limit location name hx => ?_, ?_⟩
  · have hc := h.guarded
    refine ⟨hc.distinct, fun n hn => Registry.mem_nameSet.mp (hc.defined n hn), by simp [hc.guard],
      hc.depth, hc.length_le, ?_⟩
    rintro t rest i htokens hi
    obtain ⟨-, hg, hf⟩ := found_of_invocation? hi
    rw [hf.name]
    exact ⟨hc.guard ▸ hg, hf.lookup⟩
  · have := (hx ▸ expands_expand r limit 0 [] ts).error_cause
    simp at this
  · obtain ⟨x, hx⟩ := Expands.exists_unlimited r 0 [] false ts
    refine ⟨x, hx, ?_, fun limit hl => ?_⟩
    · rintro location name most rfl
      simpa using hx.error_cause
    · have hlim : Expands r (some limit) 0 [] false ts x :=
        hx.limited (by rw [Registry.unguarded_nil]; omega)
      exact (expands_expand r limit 0 [] ts).unique hlim

end TextMacros
