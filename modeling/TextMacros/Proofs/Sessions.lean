import TextMacros.Config
import TextMacros.Proofs.Nesting

/-!
# Sessions

The expander works with macros, a configuration and the names whose expansion
is going on. Each call hands on what it was left by the calls before it. A
call enters a name before it expands a replacement and takes the name off
afterwards, also where the expansion fails; what it leaves behind is in all
cases the session that it found.
-/

set_option autoImplicit false

namespace TextMacros

structure Session where
  registry : Registry
  config : Config
  guard : Guard

namespace Session

def enter? (s : Session) (name : Text) : Option Session :=
  (s.guard.enter? name).map fun g => { s with guard := g }

def leave (s : Session) (name : Text) : Session := { s with guard := s.guard.leave name }

/-- A call at a depth, its result, and the session that it leaves behind. Both
ways out of a replacement, with tokens or with an error, take its name off. -/
inductive Calls :
    Session → Int → Bool → List Token → Except Error (List Token) → Session → Prop where
  | done {s : Session} {depth : Int} {afterSplice : Bool} : Calls s depth afterSplice [] (.ok []) s
  | fault {s : Session} {depth : Int} {afterSplice : Bool} {t : Token} {rest : List Token}
      {e : Error} (hi : invocation? s.registry s.guard t rest = .error e) :
      Calls s depth afterSplice (t :: rest) (.error e) s
  | keep {s s' : Session} {depth : Int} {afterSplice : Bool} {t : Token} {rest : List Token}
      {x : Except Error (List Token)} (hi : invocation? s.registry s.guard t rest = .ok none)
      (hr : Calls s depth false rest x s') :
      Calls s depth afterSplice (t :: rest) (x.map ([t.placed afterSplice] ++ ·)) s'
  | tooDeep {s : Session} {depth : Int} {afterSplice : Bool} {t : Token} {rest : List Token}
      {i : Invocation} (hi : invocation? s.registry s.guard t rest = .ok (some i))
      (hd : s.config.depth < depth + 1) :
      Calls s depth afterSplice (t :: rest)
        (.error (.recursionLimit t.location i.callee.name s.config.depth)) s
  | reenter {s : Session} {depth : Int} {afterSplice : Bool} {t : Token} {rest : List Token}
      {i : Invocation} (hi : invocation? s.registry s.guard t rest = .ok (some i))
      (hd : depth + 1 ≤ s.config.depth) (he : s.enter? i.callee.name = none) :
      Calls s depth afterSplice (t :: rest) (.error (.reentered t.location i.callee.name)) s
  | abort {s inner left : Session} {depth : Int} {afterSplice : Bool} {t : Token}
      {rest : List Token} {i : Invocation} {e : Error}
      (hi : invocation? s.registry s.guard t rest = .ok (some i))
      (hd : depth + 1 ≤ s.config.depth) (he : s.enter? i.callee.name = some inner)
      (hn : Calls inner (depth + 1) false i.substitution (.error e) left) :
      Calls s depth afterSplice (t :: rest) (.error e) (left.leave i.callee.name)
  | splice {s s' inner left : Session} {depth : Int} {afterSplice : Bool} {t : Token}
      {rest : List Token} {i : Invocation} {body : List Token} {x : Except Error (List Token)}
      (hi : invocation? s.registry s.guard t rest = .ok (some i))
      (hd : depth + 1 ≤ s.config.depth) (he : s.enter? i.callee.name = some inner)
      (hn : Calls inner (depth + 1) false i.substitution (.ok body) left)
      (hr : Calls (left.leave i.callee.name) depth true (rest.drop i.following) x s') :
      Calls s depth afterSplice (t :: rest)
        (x.map (respace (t.placed afterSplice).spaced body ++ ·)) s'

/-- An invoked name is not guarded, so it can be entered, and taking it off
again leaves no trace. -/
theorem enter?_of_invoked {s : Session} {t : Token} {rest : List Token} {i : Invocation}
    (hi : invocation? s.registry s.guard t rest = .ok (some i)) :
    ∃ inner, s.enter? i.callee.name = some inner ∧ inner.leave i.callee.name = s ∧
      inner = ⟨s.registry, s.config, t.text :: s.guard⟩ := by
  obtain ⟨-, hg, hf⟩ := found_of_invocation? hi
  refine ⟨⟨s.registry, s.config, t.text :: s.guard⟩, ?_, ?_, rfl⟩
  · rw [enter?, hf.name, Guard.enter?_of_not_mem hg]
    rfl
  · rw [leave, hf.name, Guard.leave_cons hg]

namespace Calls
variable {s s' : Session} {depth : Int} {afterSplice : Bool} {ts : List Token}
  {x : Except Error (List Token)}

/-- A call leaves its session as it was, and yields what a run of the expander does. -/
theorem restores (h : Calls s depth afterSplice ts x s') :
    s' = s ∧ Expands s.registry (some s.config.depth) depth s.guard afterSplice ts x := by
  induction h with
  | done => exact ⟨rfl, .done⟩
  | fault hi => exact ⟨rfl, .fault hi⟩
  | keep hi hr ih => exact ⟨ih.1, .keep hi ih.2⟩
  | tooDeep hi hd =>
    obtain ⟨-, -, hf⟩ := found_of_invocation? hi
    rw [hf.name]
    exact ⟨rfl, .tooDeep hi rfl hd⟩
  | reenter hi hd he =>
    -- What is invoked is not guarded, so it is never entered twice.
    obtain ⟨inner, hinner, -⟩ := enter?_of_invoked hi
    simp [hinner] at he
  | abort hi hd he hn ih =>
    obtain ⟨inner, hinner, hleave, heq⟩ := enter?_of_invoked hi
    obtain rfl := Option.some.inj (hinner.symm.trans he)
    -- By induction the failed expansion left the session that it was entered with.
    obtain ⟨rfl, hrun⟩ := ih
    rw [heq] at hrun
    refine ⟨hleave, .abort hi ?_ hrun⟩
    rintro most ⟨⟩
    exact hd
  | splice hi hd he hn hr ihn ihr =>
    obtain ⟨inner, hinner, hleave, heq⟩ := enter?_of_invoked hi
    obtain rfl := Option.some.inj (hinner.symm.trans he)
    obtain ⟨rfl, hrun⟩ := ihn
    rw [hleave] at ihr
    rw [heq] at hrun
    refine ⟨ihr.1, .splice hi ?_ hrun ihr.2⟩
    rintro most ⟨⟩
    exact hd

/-- Every run of the expander is one of calls. -/
theorem of_expands {r : Registry} {c : Config} {g : Guard}
    (h : Expands r (some c.depth) depth g afterSplice ts x) :
    Calls ⟨r, c, g⟩ depth afterSplice ts x ⟨r, c, g⟩ := by
  generalize hl : some c.depth = limit at h
  induction h with
  | done => exact .done
  | fault hi => exact .fault hi
  | keep hi hr ih => exact .keep hi ih
  | @tooDeep depth g afterSplice t rest i most hi hmost hd =>
    obtain rfl := Option.some.inj (hl.trans hmost)
    obtain ⟨-, -, hf⟩ := found_of_invocation? hi
    rw [← hf.name]
    exact .tooDeep hi hd
  | @abort depth g afterSplice t rest i e hi hd hn ih =>
    obtain ⟨inner, hinner, hleave, rfl⟩ := enter?_of_invoked (s := ⟨r, c, g⟩) hi
    have habort : Calls ⟨r, c, g⟩ depth afterSplice (t :: rest) (.error e) _ :=
      .abort hi (hd _ hl.symm) hinner ih
    rwa [hleave] at habort
  | @splice depth g afterSplice t rest i body x hi hd hn hr ihn ihr =>
    obtain ⟨inner, hinner, hleave, rfl⟩ := enter?_of_invoked (s := ⟨r, c, g⟩) hi
    exact .splice hi (hd _ hl.symm) hinner ihn (hleave.symm ▸ ihr)

end Calls

end Session

/-- Expanding any tokens in any session, at any depth and with any names
guarded beforehand, ends in one way only, with tokens or with one of three
errors, and leaves the macros, the configuration and the guard as they were. -/
theorem expansion_restores_session (s : Session) (depth : Int) (ts : List Token) :
    (∀ x s', Session.Calls s depth false ts x s' ↔
      x = (expand s.registry s.config.depth depth s.guard ts).result ∧ s' = s) ∧
    (expand s.registry s.config.depth depth s.guard ts).guard = s.guard ∧
    ∀ e, (expand s.registry s.config.depth depth s.guard ts).result = .error e →
      (∃ l n, e = .unterminatedInvocation l n) ∨ (∃ l n a b, e = .argumentCount l n a b) ∨
        ∃ l n, e = .recursionLimit l n s.config.depth := by
  have hrun := expands_expand s.registry s.config.depth depth s.guard ts
  refine ⟨fun x s' => ⟨fun h => ?_, ?_⟩, guard_expand .., fun e he => ?_⟩
  · obtain ⟨hs, hx⟩ := h.restores
    exact ⟨hx.unique hrun, hs⟩
  · rintro ⟨rfl, rfl⟩
    exact .of_expands hrun
  · rw [he] at hrun
    obtain h | h | ⟨l, n, most, rfl, hmost⟩ := hrun.error_cause
    · exact .inl h
    · exact .inr (.inl h)
    · obtain rfl := Option.some.inj hmost
      exact .inr (.inr ⟨l, n, rfl⟩)

end TextMacros
