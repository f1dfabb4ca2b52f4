import TextMacros.Expansion
import TextMacros.Proofs.Results

/-!
# Runs of the expander

The calls that expanding a list of tokens makes, as rules. A run without a
limit never fails for its depth. The expander returns what its run yields,
and leaves the guard as it was; the order of the calls is that of the rules.
-/

set_option autoImplicit false

namespace TextMacros

/-- A token that stays is written as it is, unless its left neighbour is new. -/
def Token.placed (afterSplice : Bool) (t : Token) : Token := if afterSplice then t.detached else t

@[simp] theorem Token.kind_placed (afterSplice : Bool) (t : Token) :
    (t.placed afterSplice).kind = t.kind := by
  cases afterSplice <;> simp [placed]

@[simp] theorem Token.text_placed (afterSplice : Bool) (t : Token) :
    (t.placed afterSplice).text = t.text := by
  cases afterSplice <;> simp [placed]

theorem Guard.holds_eq_false {g : Guard} {name : Text} : g.holds name = false ↔ name ∉ g := by
  simp [holds]

theorem Guard.enter?_of_not_mem {g : Guard} {name : Text} (h : name ∉ g) :
    g.enter? name = some (name :: g) := by
  simp [enter?, Guard.holds_eq_false.mpr h]

theorem Guard.leave_cons {g : Guard} {name : Text} (h : name ∉ g) :
    Guard.leave (name :: g) name = g := by
  have hg : g.filter (fun n => n ≠ name) = g := by
    rw [List.filter_eq_self]
    intro n hn
    simpa using fun (e : n = name) => h (e ▸ hn)
  simpa [leave] using hg

namespace Invocation

/-- What a call that fits its parameters has read. -/
theorem call_eq_ok {callee : Macro} {parameters : List Text} {name : Token} {breaks : Nat}
    {inner : List Token} {i : Invocation}
    (h : call callee parameters name breaks inner = .ok i) :
    ∃ list, ArgumentList.read 0 inner = some list ∧
      (fitArguments parameters.length list.toList).length = parameters.length ∧
      i = ⟨callee, some (fitArguments parameters.length list.toList), breaks + 1 + list.length⟩ := by
  unfold call at h
  cases hl : ArgumentList.read 0 inner with
  | none => simp [hl] at h
  | some list =>
    simp only [hl] at h
    split at h
    · next hlen => exact ⟨list, rfl, hlen, by simpa using h.symm⟩
    · simp at h

/-- What a scan that finds an invocation has seen. -/
inductive Found (r : Registry) (name : Token) (rest : List Token) : Invocation → Prop where
  | object (callee : Macro) (hl : r.lookup name.text = some callee)
      (hp : callee.parameters = none) : Found r name rest (objectLike callee)
  | function (callee : Macro) (parameters : List Text) (opening : Token) (inner : List Token)
      (list : ArgumentList) (hl : r.lookup name.text = some callee)
      (hp : callee.parameters = some parameters)
      (hd : rest.drop (rest.takeWhile fun t => t.kind = .eol).length = opening :: inner)
      (ho : opening.kind = .lparen) (hr : ArgumentList.read 0 inner = some list)
      (hn : (fitArguments parameters.length list.toList).length = parameters.length) :
      Found r name rest ⟨callee, some (fitArguments parameters.length list.toList),
        (rest.takeWhile fun t => t.kind = .eol).length + 1 + list.length⟩

/-- Behind its line breaks and its opening parenthesis an invocation ends with its arguments. -/
theorem drop_following {rest inner : List Token} {opening : Token} {breaks : Nat}
    (hd : rest.drop breaks = opening :: inner) (n : Nat) :
    rest.drop (breaks + 1 + n) = inner.drop n := by
  rw [Nat.add_assoc, ← List.drop_drop, hd, Nat.add_comm 1, List.drop_succ_cons]

theorem found_of_scan {r : Registry} {name : Token} {rest : List Token} {i : Invocation}
    (h : scan r name rest = .ok (some i)) : name.kind = .identifier ∧ Found r name rest i := by
  unfold scan at h
  split at h
  · simp at h
  next hk =>
  refine ⟨by simpa using hk, ?_⟩
  split at h
  · simp at h
  next callee hl =>
  split at h
  next hp =>
    simp only [Except.ok.injEq, Option.some.injEq] at h
    exact h ▸ .object callee hl hp
  next parameters hp =>
    dsimp only at h
    split at h
    · simp at h
    next opening inner hd =>
    split at h
    · simp at h
    next ho =>
    cases hc : call callee parameters name _ inner with
    | error e => rw [hc] at h; simp [Except.map] at h
    | ok j =>
      rw [hc] at h
      simp only [Except.map, Except.ok.injEq, Option.some.injEq] at h
      subst h
      obtain ⟨list, hr, hn, rfl⟩ := call_eq_ok hc
      exact .function callee parameters opening inner list hl hp hd (by simpa using ho) hr hn

theorem scan_of_found {r : Registry} {name : Token} {rest : List Token} {i : Invocation}
    (hk : name.kind = .identifier) (h : Found r name rest i) : scan r name rest = .ok (some i) := by
  cases h with
  | object callee hl hp => simp [scan, hk, hl, hp]
  | function callee parameters opening inner list hl hp hd ho hr hn =>
    simp [scan, hk, hl, hp, hd, ho, call, hr, hn, Except.map]

theorem Found.lookup {r : Registry} {name : Token} {rest : List Token} {i : Invocation}
    (h : Found r name rest i) : r.lookup name.text = some i.callee := by
  cases h <;> assumption

theorem Found.name {r : Registry} {name : Token} {rest : List Token} {i : Invocation}
    (h : Found r name rest i) : i.callee.name = name.text :=
  Registry.name_of_lookup h.lookup

end Invocation

theorem invocation?_unguarded {r : Registry} {g : Guard} {t : Token} {rest : List Token}
    (hk : t.kind = .identifier) (hg : t.text ∉ g) :
    invocation? r g t rest = Invocation.scan r t rest := by
  simp [invocation?, hk, Guard.holds_eq_false.mpr hg]

theorem found_of_invocation? {r : Registry} {g : Guard} {t : Token} {rest : List Token}
    {i : Invocation} (h : invocation? r g t rest = .ok (some i)) :
    t.kind = .identifier ∧ t.text ∉ g ∧ Invocation.Found r t rest i := by
  unfold invocation? at h
  split at h
  next hg =>
    obtain ⟨hk, hf⟩ := Invocation.found_of_scan h
    exact ⟨hk, Guard.holds_eq_false.mp (by simpa using hg.2), hf⟩
  · simp at h

theorem invocation?_error {r : Registry} {g : Guard} {t : Token} {rest : List Token} {e : Error}
    (h : invocation? r g t rest = .error e) :
    e = .unterminatedInvocation t.location t.text ∨
      ∃ expected actual, e = .argumentCount t.location t.text expected actual := by
  unfold invocation? Invocation.scan at h
  split at h
  next hg =>
    split at h
    · simp at h
    split at h
    · simp at h
    next callee hl =>
    split at h
    · simp at h
    dsimp only at h
    split at h
    · simp at h
    split at h
    · simp at h
    rw [map_eq_error] at h
    unfold Invocation.call at h
    split at h
    · exact .inl (Except.error.inj h).symm
    · dsimp only at h
      split at h
      · simp at h
      · have hn := Registry.name_of_lookup hl
        exact .inr ⟨_, _, hn ▸ (Except.error.inj h).symm⟩
  · simp at h

/-- What expanding a list yields, at a depth and under a guard. Without a
limit expansions may nest as deep as they have to. -/
inductive Expands (r : Registry) (limit : Option Int) :
    Int → Guard → Bool → List Token → Except Error (List Token) → Prop where
  | done {depth : Int} {g : Guard} {afterSplice : Bool} :
      Expands r limit depth g afterSplice [] (.ok [])
  | fault {depth : Int} {g : Guard} {afterSplice : Bool} {t : Token} {rest : List Token} {e : Error}
      (hi : invocation? r g t rest = .error e) :
      Expands r limit depth g afterSplice (t :: rest) (.error e)
  | keep {depth : Int} {g : Guard} {afterSplice : Bool} {t : Token} {rest : List Token}
      {x : Except Error (List Token)} (hi : invocation? r g t rest = .ok none)
      (hr : Expands r limit depth g false rest x) :
      Expands r limit depth g afterSplice (t :: rest) (x.map ([t.placed afterSplice] ++ ·))
  | tooDeep {depth : Int} {g : Guard} {afterSplice : Bool} {t : Token} {rest : List Token}
      {i : Invocation} {most : Int} (hi : invocation? r g t rest = .ok (some i))
      (hl : limit = some most) (hd : most < depth + 1) :
      Expands r limit depth g afterSplice (t :: rest)
        (.error (.recursionLimit t.location t.text most))
  | abort {depth : Int} {g : Guard} {afterSplice : Bool} {t : Token} {rest : List Token}
      {i : Invocation} {e : Error} (hi : invocation? r g t rest = .ok (some i))
      (hd : ∀ most, limit = some most → depth + 1 ≤ most)
      (hn : Expands r limit (depth + 1) (t.text :: g) false i.substitution (.error e)) :
      Expands r limit depth g afterSplice (t :: rest) (.error e)
  | splice {depth : Int} {g : Guard} {afterSplice : Bool} {t : Token} {rest : List Token}
      {i : Invocation} {body : List Token} {x : Except Error (List Token)}
      (hi : invocation? r g t rest = .ok (some i))
      (hd : ∀ most, limit = some most → depth + 1 ≤ most)
      (hn : Expands r limit (depth + 1) (t.text :: g) false i.substitution (.ok body))
      (hr : Expands r limit depth g true (rest.drop i.following) x) :
      Expands r limit depth g afterSplice (t :: rest)
        (x.map (respace (t.placed afterSplice).spaced body ++ ·))

/-- An invoked name is not guarded, so entering it never fails and leaving it
gives back the guard that was there before. -/
theorem expandFrom_spec (r : Registry) (limit depth : Int) (g : Guard) (afterSplice : Bool)
    (ts : List Token) :
    Expands r (some limit) depth g afterSplice ts
        (expandFrom r limit depth g afterSplice ts).result ∧
      (expandFrom r limit depth g afterSplice ts).guard = g := by
  induction depth, g, afterSplice, ts using expandFrom.induct r limit with
  | case1 depth g afterSplice => rw [expandFrom]; exact ⟨.done, rfl⟩
  | case2 depth g afterSplice t rest e hi =>
    rw [expandFrom, hi]
    exact ⟨.fault hi, rfl⟩
  | case3 depth g afterSplice t rest hi ih =>
    rw [expandFrom, hi]
    exact ⟨.keep hi ih.1, ih.2⟩
  | case4 depth g afterSplice t rest i hi hd =>
    obtain ⟨-, -, hf⟩ := found_of_invocation? hi
    rw [expandFrom, hi]
    simp only [if_pos hd, hf.name]
    exact ⟨.tooDeep hi rfl hd, rfl⟩
  | case5 depth g afterSplice t rest i hi name hd he =>
    obtain ⟨-, hg, hf⟩ := found_of_invocation? hi
    simp [name, hf.name, Guard.enter?_of_not_mem hg] at he
  | case6 depth g afterSplice t rest i hi name hd inner he nested e hx ih =>
    obtain ⟨-, hg, hf⟩ := found_of_invocation? hi
    obtain rfl : t.text :: g = inner := by
      simpa [name, hf.name, Guard.enter?_of_not_mem hg] using he
    have hn : nested.guard = t.text :: g := ih.2
    rw [expandFrom, hi]
    simp only [if_neg hd, hf.name, Guard.enter?_of_not_mem hg]
    rw [show (expandFrom r limit (depth + 1) (t.text :: g) false i.substitution) = nested from rfl,
      hx, hn, Guard.leave_cons hg]
    refine ⟨.abort hi ?_ (hx ▸ ih.1), rfl⟩
    rintro most ⟨⟩
    omega
  | case7 depth g afterSplice t rest i hi name hd inner he nested outer body hx ih₁ ih₂ =>
    obtain ⟨-, hg, hf⟩ := found_of_invocation? hi
    obtain rfl : t.text :: g = inner := by
      simpa [name, hf.name, Guard.enter?_of_not_mem hg] using he
    have hn : nested.guard = t.text :: g := ih₁.2
    have ho : outer = g := by simp only [outer, name, hn, hf.name, Guard.leave_cons hg]
    rw [ho] at ih₂
    rw [expandFrom, hi]
    simp only [if_neg hd, hf.name, Guard.enter?_of_not_mem hg]
    rw [show (expandFrom r limit (depth + 1) (t.text :: g) false i.substitution) = nested from rfl,
      hx, hn, Guard.leave_cons hg]
    refine ⟨.splice hi ?_ (hx ▸ ih₁.1) ih₂.1, ih₂.2⟩
    rintro most ⟨⟩
    omega

theorem expands_expand (r : Registry) (limit depth : Int) (g : Guard) (ts : List Token) :
    Expands r (some limit) depth g false ts (expand r limit depth g ts).result :=
  (expandFrom_spec r limit depth g false ts).1

theorem guard_expand (r : Registry) (limit depth : Int) (g : Guard) (ts : List Token) :
    (expand r limit depth g ts).guard = g :=
  (expandFrom_spec r limit depth g false ts).2

namespace Expands

/-- A list has one run. -/
theorem unique {r : Registry} {limit : Option Int} {depth : Int} {g : Guard} {afterSplice : Bool}
    {ts : List Token} {x y : Except Error (List Token)}
    (hx : Expands r limit depth g afterSplice ts x)
    (hy : Expands r limit depth g afterSplice ts y) : x = y := by
  induction hx generalizing y with
  | done => cases hy; rfl
  | fault hi => cases hy <;> simp_all
  | keep hi hr ih =>
    cases hy with
    | keep hi' hr' => rw [ih hr']
    | fault hi' => simp [hi] at hi'
    | tooDeep hi' => simp [hi] at hi'
    | abort hi' => simp [hi] at hi'
    | splice hi' => simp [hi] at hi'
  | tooDeep hi hl hd =>
    cases hy with
    | tooDeep hi' hl' => simp_all
    | abort hi' hd' => have := hd' _ hl; omega
    | splice hi' hd' => have := hd' _ hl; omega
    | fault hi' => simp [hi] at hi'
    | keep hi' => simp [hi] at hi'
  | abort hi hd hn ih =>
    cases hy with
    | tooDeep hi' hl' => have := hd _ hl'; omega
    | abort hi' hd' hn' =>
      rw [hi] at hi'
      cases hi'
      simpa using ih hn'
    | splice hi' hd' hn' =>
      rw [hi] at hi'
      cases hi'
      simpa using ih hn'
    | fault hi' => simp [hi] at hi'
    | keep hi' => simp [hi] at hi'
  | splice hi hd hn hr ihn ihr =>
    cases hy with
    | tooDeep hi' hl' => have := hd _ hl'; omega
    | abort hi' hd' hn' =>
      rw [hi] at hi'
      cases hi'
      simpa using ihn hn'
    | splice hi' hd' hn' hr' =>
      rw [hi] at hi'
      cases hi'
      obtain rfl : _ = _ := Except.ok.inj (ihn hn')
      rw [ihr hr']
    | fault hi' => simp [hi] at hi'
    | keep hi' => simp [hi] at hi'

end Expands

end TextMacros
