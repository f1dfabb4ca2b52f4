import Mathlib
import TextMacros.Proofs.Edges

/-!
# Expanding in parts

A list that goes on does not change what was found in it: an invocation is
complete with its closing parenthesis. Only a name at the end that may still
get arguments waits for what comes next. Elsewhere a list may be cut in two,
and of the second part at most the space before its first token is forgotten.
-/

set_option autoImplicit false

namespace TextMacros

/-- The tokens from the first one on that is no line break. -/
def afterBreaks (ts : List Token) : List Token :=
  ts.drop (ts.takeWhile fun t => t.kind = .eol).length

theorem takeWhile_append_of_afterBreaks {ts us inner : List Token} {o : Token}
    (h : afterBreaks ts = o :: inner) :
    (ts ++ us).takeWhile (fun t => t.kind = .eol) = ts.takeWhile fun t => t.kind = .eol := by
  have hlt : (ts.takeWhile fun t => t.kind = .eol).length < ts.length := by
    by_contra hge
    rw [afterBreaks, List.drop_eq_nil_of_le (by omega)] at h
    cases h
  rw [List.takeWhile_append, if_neg (by omega)]

theorem afterBreaks_append {ts us inner : List Token} {o : Token}
    (h : afterBreaks ts = o :: inner) : afterBreaks (ts ++ us) = o :: (inner ++ us) := by
  have hlt : (ts.takeWhile fun t => t.kind = .eol).length ≤ ts.length :=
    (List.takeWhile_prefix _).length_le
  rw [afterBreaks, takeWhile_append_of_afterBreaks h, List.drop_append_of_le_length hlt]
  exact congrArg (· ++ us) h

theorem all_breaks_of_afterBreaks {ts : List Token} (h : afterBreaks ts = []) :
    ∀ t ∈ ts, t.kind = .eol := by
  have hall : ts.takeWhile (fun t => t.kind = .eol) = ts :=
    (List.takeWhile_prefix _).eq_of_length_le (List.drop_eq_nil_iff.mp h)
  intro t ht
  rw [← hall] at ht
  simpa using List.mem_takeWhile_imp ht

namespace Invocation
variable {r : Registry} {name : Token} {rest : List Token} {i : Invocation}

theorem Found.append (h : Found r name rest i) (ys : List Token) :
    Found r name (rest ++ ys) i := by
  cases h with
  | object callee hl hp => exact .object callee hl hp
  | function callee parameters opening inner list hl hp hd ho hr hn =>
    have hbreaks : (rest ++ ys).takeWhile (fun t => t.kind = .eol) =
        rest.takeWhile fun t => t.kind = .eol := takeWhile_append_of_afterBreaks hd
    have hread : ArgumentList.read 0 (inner ++ ys) = some list :=
      ArgumentList.read_of_reads ((ArgumentList.reads_of_read hr).append ys)
    rw [← hbreaks]
    exact .function callee parameters opening (inner ++ ys) list hl hp (afterBreaks_append hd) ho
      hread hn

theorem Found.following_le (h : Found r name rest i) : i.following ≤ rest.length := by
  cases h with
  | object callee hl hp => exact Nat.zero_le _
  | function callee parameters opening inner list hl hp hd ho hr hn =>
    obtain ⟨front, close, back, rfl, -, hlen⟩ := (ArgumentList.reads_of_read hr).split_close
    have hlength := congrArg List.length hd
    simp only [List.length_drop, List.length_cons, List.length_append] at hlength
    dsimp only
    omega

/-- A name is no invocation if no macro has it, or if nothing behind it can be its arguments. -/
theorem scan_eq_none (hk : name.kind = .identifier) : scan r name rest = .ok none ↔
    ∀ m, r.lookup name.text = some m →
      m.parameters ≠ none ∧ ∀ o ∈ (afterBreaks rest).head?, o.kind ≠ .lparen := by
  cases hl : r.lookup name.text with
  | none => simp [scan, hk, hl]
  | some m =>
    cases hp : m.parameters with
    | none => simp [scan, hk, hl, hp]
    | some parameters =>
      rw [afterBreaks]
      cases hd : rest.drop (rest.takeWhile fun t => t.kind = .eol).length with
      | nil => simp [scan, hk, hl, hp, hd]
      | cons o inner =>
        by_cases ho : o.kind = .lparen
        · simp [scan, hk, hl, hp, hd, ho, map_eq_ok]
        · simp [scan, hk, hl, hp, hd, ho]

end Invocation

theorem invocation?_eq_none {r : Registry} {g : Guard} {t : Token} {rest : List Token} :
    invocation? r g t rest = .ok none ↔
      (t.kind = .identifier → t.text ∉ g → ∀ m, r.lookup t.text = some m →
        m.parameters ≠ none ∧ ∀ o ∈ (afterBreaks rest).head?, o.kind ≠ .lparen) := by
  by_cases hk : t.kind = .identifier
  · by_cases hg : t.text ∈ g
    · simp [invocation?, hk, Guard.holds, hg]
    · rw [invocation?_unguarded hk hg, Invocation.scan_eq_none hk]
      simp [hk, hg]
  · simp [invocation?, hk]

/-- The list ends in a name, but for line breaks, that is not guarded and names a macro with
parameters. -/
def AwaitsArguments (r : Registry) (g : Guard) (ts : List Token) : Prop :=
  ∃ front name breaks, ts = front ++ name :: breaks ∧ name.kind = .identifier ∧ name.text ∉ g ∧
    (∃ m, r.lookup name.text = some m ∧ m.parameters ≠ none) ∧ ∀ t ∈ breaks, t.kind = .eol

theorem AwaitsArguments.of_suffix {r : Registry} {g : Guard} {ts us : List Token}
    (h : AwaitsArguments r g ts) (hs : ts <:+ us) : AwaitsArguments r g us := by
  obtain ⟨before, rfl⟩ := hs
  obtain ⟨front, name, breaks, rfl, h⟩ := h
  exact ⟨before ++ front, name, breaks, by simp, h⟩

/-- Nothing that comes later changes whether there is an invocation at a name,
unless the name waits for it. -/
theorem invocation?_append {r : Registry} {g : Guard} {t : Token} {rest : List Token}
    {found : Option Invocation} (h : invocation? r g t rest = .ok found)
    (hw : ¬ AwaitsArguments r g (t :: rest)) (ys : List Token) :
    invocation? r g t (rest ++ ys) = .ok found := by
  cases found with
  | some i =>
    obtain ⟨hk, hg, hf⟩ := found_of_invocation? h
    rw [invocation?_unguarded hk hg]
    exact Invocation.scan_of_found hk (hf.append ys)
  | none =>
    rw [invocation?_eq_none] at h ⊢
    intro hk hg m hm
    obtain ⟨hp, hopen⟩ := h hk hg m hm
    refine ⟨hp, ?_⟩
    cases hafter : afterBreaks rest with
    | nil =>
      have hbreaks := all_breaks_of_afterBreaks hafter
      exact absurd ⟨[], t, rest, rfl, hk, hg, ⟨m, hm, hp⟩, hbreaks⟩ hw
    | cons o inner =>
      rw [afterBreaks_append hafter]
      simpa [hafter] using hopen

/-- The space before the first token is not known any more, if there was none. -/
def Detached (us vs : List Token) : Prop :=
  vs = us ∨ ∃ t rest, us = t :: rest ∧ t.spaced = some false ∧ vs = t.withSpacing none :: rest

theorem detached_cons (t : Token) (rest : List Token) :
    Detached (t :: rest) (t.detached :: rest) := by
  by_cases ht : t.spaced = some false
  · exact .inr ⟨t, rest, rfl, ht, by simp [Token.detached, ht]⟩
  · exact .inl (by simp [Token.detached, ht])

/-- What takes the place of a token loses its neighbour with it. -/
theorem Token.detached_withSpacing (t u : Token) :
    (u.withSpacing t.spaced).detached = u.withSpacing t.detached.spaced := by
  by_cases ht : t.spaced = some false <;> simp [detached, withSpacing, ht]

theorem map_append_append (x : Except Error (List Token)) (us vs : List Token) :
    (x.map (vs ++ ·)).map (us ++ ·) = x.map ((us ++ vs) ++ ·) := by
  cases x with
  | error e => rfl
  | ok ws => exact congrArg Except.ok (List.append_assoc us vs ws).symm

namespace Expands
variable {r : Registry} {limit : Option Int} {depth : Int} {g : Guard} {afterSplice : Bool}

/-- Behind a replacement a list expands to the same, or fails in the same way. -/
theorem behind_splice {ts : List Token} {x : Except Error (List Token)}
    (h : Expands r limit depth g false ts x) :
    ∃ y, Expands r limit depth g true ts y ∧ Agree Eq Detached x y := by
  cases h with
  | done => exact ⟨_, .done, .ok (.inl rfl)⟩
  | fault hi => exact ⟨_, .fault hi, .error rfl⟩
  | @keep _ _ _ t rest x hi hr =>
    refine ⟨_, .keep hi hr, ?_⟩
    cases x with
    | error e => exact .error rfl
    | ok us => exact .ok (detached_cons t us)
  | tooDeep hi hl hd => exact ⟨_, .tooDeep hi hl hd, .error rfl⟩
  | abort hi hd hn => exact ⟨_, .abort hi hd hn, .error rfl⟩
  | @splice _ _ _ t rest i body x hi hd hn hr =>
    refine ⟨_, .splice hi hd hn hr, ?_⟩
    cases x with
    | error e => exact .error rfl
    | ok us =>
      cases body with
      | nil => exact .ok (.inl rfl)
      | cons u body =>
        refine .ok ?_
        show Detached (u.withSpacing t.spaced :: (body ++ us))
          (u.withSpacing t.detached.spaced :: (body ++ us))
        rw [← Token.detached_withSpacing]
        exact detached_cons _ _

/-- What is expanded stays so when the list goes on, and the rest is expanded
from the state that is left. -/
theorem append {xs us : List Token} (h : Expands r limit depth g afterSplice xs (.ok us))
    (hw : ¬ AwaitsArguments r g xs) : ∃ left, ∀ ys y, Expands r limit depth g left ys y →
      Expands r limit depth g afterSplice (xs ++ ys) (y.map (us ++ ·)) := by
  generalize hx : Except.ok us = x at h
  -- Each step is also a step of the longer list, as no name in what is left of `xs` waits either.
  induction h generalizing us with
  | @done depth g afterSplice =>
    cases hx
    refine ⟨afterSplice, fun ys y hy => ?_⟩
    cases y <;> exact hy
  | fault | tooDeep | abort => cases hx
  | @keep depth g afterSplice t rest x hi hr ih =>
    obtain ⟨vs, hvs, rfl⟩ := map_eq_ok.mp hx.symm
    have hrest : ¬ AwaitsArguments r g rest := fun h => hw (h.of_suffix (List.suffix_cons t rest))
    obtain ⟨left, hleft⟩ := ih hrest hvs.symm
    refine ⟨left, fun ys y hy => ?_⟩
    rw [← map_append_append]
    exact .keep (invocation?_append hi hw ys) (hleft ys y hy)
  | @splice depth g afterSplice t rest i body x hi hd hn hr ihn ihr =>
    obtain ⟨vs, hvs, rfl⟩ := map_eq_ok.mp hx.symm
    obtain ⟨-, -, hf⟩ := found_of_invocation? hi
    have hsuffix : rest.drop i.following <:+ t :: rest :=
      (List.drop_suffix _ rest).trans (List.suffix_cons t rest)
    obtain ⟨left, hleft⟩ := ihr (fun h => hw (h.of_suffix hsuffix)) hvs.symm
    refine ⟨left, fun ys y hy => ?_⟩
    have hdrop : (rest ++ ys).drop i.following = rest.drop i.following ++ ys :=
      List.drop_append_of_le_length hf.following_le
    rw [← map_append_append]
    exact .splice (invocation?_append hi hw ys) hd hn (hdrop ▸ hleft ys y hy)

end Expands

/-- A list that is expanded, and does not end in a name that waits for arguments, may be followed
by any list: that one is expanded as it is by itself, but for the space before its first token,
or fails as it fails by itself. -/
theorem expand_append (r : Registry) (limit depth : Int) (g : Guard) (xs ys us : List Token)
    (hx : (expand r limit depth g xs).result = .ok us) (hw : ¬ AwaitsArguments r g xs) :
    (∀ vs, (expand r limit depth g ys).result = .ok vs → ∃ ws, Detached vs ws ∧
      (expand r limit depth g (xs ++ ys)).result = .ok (us ++ ws)) ∧
    ∀ e, (expand r limit depth g ys).result = .error e →
      (expand r limit depth g (xs ++ ys)).result = .error e := by
  obtain ⟨left, hleft⟩ := (hx ▸ expands_expand r limit depth g xs).append hw
  obtain ⟨y, hy, hagree⟩ : ∃ y, Expands r (some limit) depth g left ys y ∧
      Agree Eq Detached (expand r limit depth g ys).result y := by
    have hrun := expands_expand r limit depth g ys
    cases left with
    | false => exact ⟨_, hrun, .refl (fun _ => rfl) (fun _ => .inl rfl) _⟩
    | true => exact hrun.behind_splice
  have hwhole : (expand r limit depth g (xs ++ ys)).result = y.map (us ++ ·) :=
    (expands_expand r limit depth g (xs ++ ys)).unique (hleft ys y hy)
  constructor
  · intro vs hvs
    obtain ⟨ws, rfl, hws⟩ := (hvs ▸ hagree).of_ok
    exact ⟨ws, hws, hwhole⟩
  · intro e he
    obtain ⟨_, rfl, rfl⟩ := (he ▸ hagree).of_error
    exact hwhole

/-- `E` is replaced by nothing; `F` and `G` take an argument. -/
def seamSample : Registry :=
  ⟨[⟨"E", none, [], .definition⟩,
    ⟨"F", some ["x"], [⟨.identifier, "x", .definition, some false⟩], .definition⟩,
    ⟨"G", some ["x"], [], .definition⟩]⟩

/-- The list is cut behind `E`, between the guarded `G` and its parenthesis. -/
theorem expand_append_sample :
    let touching (kind : TokenKind) (text : Text) : Token := ⟨kind, text, .definition, some false⟩
    let xs := [touching .identifier "G", touching .identifier "E"]
    let ys := [touching .lparen "(", touching .identifier "F", touching .lparen "(",
      touching .number "1", touching .rparen ")", touching .rparen ")"]
    (expand seamSample 1 0 ["G"] xs).result = .ok [touching .identifier "G"] ∧
      ¬ AwaitsArguments seamSample ["G"] xs ∧
      (expand seamSample 1 0 ["G"] ys).result = .ok [touching .lparen "(", touching .number "1",
        (touching .rparen ")").withSpacing none] ∧
      ∃ ws, Detached [touching .lparen "(", touching .number "1",
          (touching .rparen ")").withSpacing none] ws ∧
        (expand seamSample 1 0 ["G"] (xs ++ ys)).result = .ok (touching .identifier "G" :: ws) := by
  intro touching xs ys
  have hx : (expand seamSample 1 0 ["G"] xs).result = .ok [touching .identifier "G"] := by cbv
  have hy : (expand seamSample 1 0 ["G"] ys).result = .ok [touching .lparen "(",
      touching .number "1", (touching .rparen ")").withSpacing none] := by cbv
  have hw : ¬ AwaitsArguments seamSample ["G"] xs := by
    rintro ⟨front, name, breaks, h, hk, hg, ⟨m, hm, hp⟩, hb⟩
    rcases front with _ | ⟨_, _ | ⟨_, front⟩⟩
    · obtain ⟨rfl, -⟩ := List.cons.inj h
      exact hg (List.mem_singleton.mpr rfl)
    · obtain ⟨-, hlast⟩ := List.cons.inj h
      obtain ⟨rfl, -⟩ := List.cons.inj hlast
      cases hm
      exact hp rfl
    · simp [xs] at h
  exact ⟨hx, hw, hy, (expand_append seamSample 1 0 ["G"] xs ys _ hx hw).1 _ hy⟩

end TextMacros
