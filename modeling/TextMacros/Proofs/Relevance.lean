import Mathlib
import TextMacros.Proofs.Contents

/-!
# Relevant definitions

The names that matter to an expansion are those that stand in the list, and
those that stand in the bodies of macros that matter. Whatever comes up while
bodies and arguments are rescanned has such a name, so all other definitions
may be added, changed or taken away.
-/

set_option autoImplicit false

namespace TextMacros

/-- The least set with the identifiers of a list and those of the body of each of its members. -/
inductive Registry.Relevant (r : Registry) (ts : List Token) : Text → Prop where
  | written {t : Token} (ht : t ∈ ts) (hk : t.kind = .identifier) : Relevant r ts t.text
  | inBody {name : Text} {m : Macro} {t : Token} (h : Relevant r ts name)
      (hm : r.lookup name = some m) (ht : t ∈ m.body) (hk : t.kind = .identifier) :
      Relevant r ts t.text

/-- An identifier is one of the names. -/
def Within (names : Text → Prop) (kind : TokenKind) (text : Text) : Prop :=
  kind = .identifier → names text

/-- The bodies of the macros with these names hold no other names. -/
def Registry.ClosedUnder (r : Registry) (names : Text → Prop) : Prop :=
  ∀ name m, names name → r.lookup name = some m → Throughout (Within names) m.body

theorem Registry.closedUnder_relevant (r : Registry) (ts : List Token) :
    r.ClosedUnder (r.Relevant ts) :=
  fun _ _ hname hm _ ht hk => .inBody hname hm ht hk

section
variable {r q : Registry} {names : Text → Prop}

/-- Whether a macro is invoked depends on its own definition only. -/
theorem invocation?_congr {t : Token} (h : t.kind = .identifier → q.lookup t.text = r.lookup t.text)
    (g : Guard) (rest : List Token) : invocation? q g t rest = invocation? r g t rest := by
  by_cases hk : t.kind = .identifier
  · unfold invocation? Invocation.scan
    rw [h hk]
  · simp [invocation?, hk]

theorem Invocation.Found.within {t : Token} {rest : List Token} {i : Invocation}
    (h : Found r t rest i) (hr : r.ClosedUnder names) (hk : t.kind = .identifier)
    (hts : Throughout (Within names) (t :: rest)) : Throughout (Within names) i.substitution := by
  obtain ⟨ht, hrest⟩ := throughout_cons.mp hts
  exact h.throughout (hr _ _ (ht hk) h.lookup) fun u hu _ => hrest u hu

/-- A run under one registry is a run under every other that agrees with it on a set of names
which no body leads out of. -/
theorem Expands.congr (hr : r.ClosedUnder names)
    (hq : ∀ name, names name → q.lookup name = r.lookup name) {limit : Option Int} {depth : Int}
    {g : Guard} {afterSplice : Bool} {ts : List Token} {x : Except Error (List Token)}
    (h : Expands r limit depth g afterSplice ts x) (hts : Throughout (Within names) ts) :
    Expands q limit depth g afterSplice ts x := by
  have hinvocation : ∀ {g t rest}, Throughout (Within names) (t :: rest) →
      invocation? q g t rest = invocation? r g t rest := fun hts =>
    invocation?_congr (fun hk => hq _ ((throughout_cons.mp hts).1 hk)) _ _
  induction h with
  | done => exact .done
  | fault hi => exact .fault (hinvocation hts ▸ hi)
  | keep hi hrest ih =>
    exact .keep (hinvocation hts ▸ hi) (ih (throughout_cons.mp hts).2)
  | tooDeep hi hl hd => exact .tooDeep (hinvocation hts ▸ hi) hl hd
  | abort hi hd hn ih =>
    obtain ⟨hk, -, hf⟩ := found_of_invocation? hi
    exact .abort (hinvocation hts ▸ hi) hd (ih (hf.within hr hk hts))
  | splice hi hd hn hrest ihn ihr =>
    obtain ⟨hk, -, hf⟩ := found_of_invocation? hi
    have hafter := (throughout_cons.mp hts).2.drop
    exact .splice (hinvocation hts ▸ hi) hd (ihn (hf.within hr hk hts)) (ihr (hafter _))

end

/-- Registries that agree on the relevant names expand the list to the same, or fail in the same
way. So a definition with another name may be made, changed or removed. -/
theorem expand_relevant (r : Registry) (limit depth : Int) (g : Guard) (ts : List Token) :
    (∀ q : Registry, (∀ name, r.Relevant ts name → q.lookup name = r.lookup name) →
      (expand q limit depth g ts).result = (expand r limit depth g ts).result) ∧
    (∀ m : Macro, ¬ r.Relevant ts m.name →
      (expand (r.insert m) limit depth g ts).result = (expand r limit depth g ts).result) ∧
    ∀ name, ¬ r.Relevant ts name →
      (expand (r.erase name) limit depth g ts).result = (expand r limit depth g ts).result := by
  have hagree : ∀ q : Registry, (∀ name, r.Relevant ts name → q.lookup name = r.lookup name) →
      (expand q limit depth g ts).result = (expand r limit depth g ts).result := by
    intro q hq
    have hts : Throughout (Within (r.Relevant ts)) ts := fun t ht hk => .written ht hk
    have hrun := (expands_expand r limit depth g ts).congr (r.closedUnder_relevant ts) hq hts
    exact (expands_expand q limit depth g ts).unique hrun
  refine ⟨hagree, fun m hm => hagree _ fun name hname => ?_, fun erased he =>
    hagree _ fun name hname => ?_⟩
  · rw [Registry.lookup_insert, if_neg]
    exact fun h => hm (h ▸ hname)
  · rw [Registry.lookup_erase, if_neg]
    exact fun h => he (h ▸ hname)

def relevanceSample (others : List Macro) : Registry :=
  let spaced (kind : TokenKind) (text : Text) : Token := ⟨kind, text, .definition, some true⟩
  ⟨others ++ [⟨"N", none, [spaced .identifier "M"], .definition⟩,
    ⟨"M", none, [spaced .number "1"], .definition⟩]⟩

/-- `U` stands in a literal only. -/
def literalSample : List Token :=
  let spaced (kind : TokenKind) (text : Text) : Token := ⟨kind, text, .definition, some true⟩
  [spaced .identifier "N", spaced .string "\"U\"", spaced .identifier "V"]

def unrelatedSample : Macro :=
  ⟨"U", some ["x"], [⟨.identifier, "N", .definition, some true⟩], .definition⟩

theorem relevant_sample {name : Text}
    (h : (relevanceSample [unrelatedSample]).Relevant literalSample name) :
    name = "N" ∨ name = "M" ∨ name = "V" := by
  induction h with
  | @written t ht hk =>
    simp only [literalSample, List.mem_cons, List.not_mem_nil, or_false] at ht
    rcases ht with rfl | rfl | rfl <;> simp_all
  | @inBody name m t h hm ht hk ih =>
    have hbody : ∀ t ∈ m.body, t.kind = .identifier → t.text = "M" := by
      rcases ih with rfl | rfl | rfl
      · cases hm; decide
      · cases hm; decide
      · cases hm
    exact .inr (.inl (hbody t ht hk))

/-- `U` is taken away, defined in another way, or not there from the beginning. -/
theorem expand_relevant_sample :
    (∀ name, (relevanceSample [unrelatedSample]).Relevant literalSample name →
      (relevanceSample []).lookup name = (relevanceSample [unrelatedSample]).lookup name) ∧
    ¬ (relevanceSample [unrelatedSample]).Relevant literalSample "U" ∧
    (expand (relevanceSample []) 2 0 [] literalSample).result =
      (expand (relevanceSample [unrelatedSample]) 2 0 [] literalSample).result ∧
    (expand ((relevanceSample [unrelatedSample]).insert ⟨"U", none, [], .definition⟩) 2 0 []
      literalSample).result =
        (expand (relevanceSample [unrelatedSample]) 2 0 [] literalSample).result ∧
    (expand ((relevanceSample [unrelatedSample]).erase "U") 2 0 [] literalSample).result =
      (expand (relevanceSample [unrelatedSample]) 2 0 [] literalSample).result := by
  have hagree : ∀ name, (relevanceSample [unrelatedSample]).Relevant literalSample name →
      (relevanceSample []).lookup name = (relevanceSample [unrelatedSample]).lookup name := by
    intro name h
    rcases relevant_sample h with rfl | rfl | rfl <;> rfl
  have hnot : ¬ (relevanceSample [unrelatedSample]).Relevant literalSample "U" := by
    intro h
    rcases relevant_sample h with h | h | h <;> exact absurd h (by decide)
  obtain ⟨hany, hinsert, herase⟩ :=
    expand_relevant (relevanceSample [unrelatedSample]) 2 0 [] literalSample
  exact ⟨hagree, hnot, hany _ hagree, hinsert ⟨"U", none, [], .definition⟩ hnot, herase "U" hnot⟩

end TextMacros
