import Mathlib.Data.List.Forall2
import TextMacros.Proofs.ArgumentReading
import TextMacros.Proofs.Runs

/-!
# Expanding like tokens

Expansion looks at the kinds of tokens, at the names of identifiers and at
the spaces before tokens. Lists that agree in these expand to lists that do,
or fail for the same reason, under registries whose bodies agree in them.
-/

set_option autoImplicit false

namespace TextMacros

/-- A relation of tokens that keeps all that expansion looks at. -/
structure Likeness (R : Token → Token → Prop) : Prop where
  kind : ∀ {t u}, R t u → t.kind = u.kind
  name : ∀ {t u}, R t u → t.kind = .identifier → t.text = u.text
  spaced : ∀ {t u}, R t u → t.spaced = u.spaced
  withSpacing : ∀ {t u} spaced, R t u → R (t.withSpacing spaced) (u.withSpacing spaced)

theorem Likeness.flip {R : Token → Token → Prop} (h : Likeness R) : Likeness (flip R) where
  kind ht := (h.kind ht).symm
  name ht hk := (h.name ht ((h.kind ht).trans hk)).symm
  spaced ht := (h.spaced ht).symm
  withSpacing spaced ht := h.withSpacing spaced ht

structure Macro.Like (R : Token → Token → Prop) (m n : Macro) : Prop where
  name : m.name = n.name
  parameters : m.parameters = n.parameters
  body : List.Forall₂ R m.body n.body

def Registry.Like (R : Token → Token → Prop) (r q : Registry) : Prop :=
  ∀ name, Option.Rel (Macro.Like R) (r.lookup name) (q.lookup name)

/-- The same failure at names that are alike. -/
inductive FailsLike (R : Token → Token → Prop) : Error → Error → Prop where
  | unterminated {t u : Token} (h : R t u) (hk : t.kind = .identifier) :
      FailsLike R (.unterminatedInvocation t.location t.text)
        (.unterminatedInvocation u.location t.text)
  | argumentCount {t u : Token} (h : R t u) (hk : t.kind = .identifier) (expected actual : Int) :
      FailsLike R (.argumentCount t.location t.text expected actual)
        (.argumentCount u.location t.text expected actual)
  | recursionLimit {t u : Token} (h : R t u) (hk : t.kind = .identifier) (limit : Int) :
      FailsLike R (.recursionLimit t.location t.text limit)
        (.recursionLimit u.location t.text limit)

structure ArgumentList.Like (R : Token → Token → Prop) (a b : ArgumentList) : Prop where
  first : List.Forall₂ R a.first b.first
  others : List.Forall₂ (List.Forall₂ R) a.others b.others
  length : a.length = b.length

structure Invocation.Like (R : Token → Token → Prop) (i j : Invocation) : Prop where
  substitution : List.Forall₂ R i.substitution j.substitution
  following : i.following = j.following

section
variable {R : Token → Token → Prop} {ts us : List Token}

theorem Token.detached_like (hR : Likeness R) {t u : Token} (h : R t u) :
    R t.detached u.detached := by
  unfold detached
  rw [hR.spaced h]
  split
  · exact hR.withSpacing none h
  · exact h

theorem Token.placed_like (hR : Likeness R) {t u : Token} (h : R t u) (afterSplice : Bool) :
    R (t.placed afterSplice) (u.placed afterSplice) := by
  cases afterSplice with
  | false => exact h
  | true => exact detached_like hR h

theorem respace_like (hR : Likeness R) (h : List.Forall₂ R ts us) (spaced : Option Bool) :
    List.Forall₂ R (respace spaced ts) (respace spaced us) := by
  cases h with
  | nil => exact .nil
  | cons h hs => exact .cons (hR.withSpacing spaced h) hs

theorem append_like {vs ws : List Token} (h : List.Forall₂ R ts us) (h' : List.Forall₂ R vs ws) :
    List.Forall₂ R (ts ++ vs) (us ++ ws) :=
  List.rel_append h h'

theorem length_takeWhile_like {p : Token → Bool} (hp : ∀ t u, R t u → p t = p u)
    (h : List.Forall₂ R ts us) : (ts.takeWhile p).length = (us.takeWhile p).length := by
  induction h with
  | nil => rfl
  | cons h hs ih =>
    simp only [List.takeWhile_cons, hp _ _ h]
    split <;> simp [ih]

namespace ArgumentList

theorem Like.keep {t u : Token} (ht : R t u) {a b : ArgumentList} (h : Like R a b) :
    Like R (keep t a) (keep u b) :=
  ⟨.cons ht h.first, h.others, congrArg (· + 1) h.length⟩

theorem Like.skip {a b : ArgumentList} (h : Like R a b) : Like R a.skip b.skip :=
  ⟨h.first, h.others, congrArg (· + 1) h.length⟩

theorem Like.split {a b : ArgumentList} (h : Like R a b) : Like R a.split b.split :=
  ⟨.nil, .cons h.first h.others, congrArg (· + 1) h.length⟩

theorem Like.toList {a b : ArgumentList} (h : Like R a b) :
    List.Forall₂ (List.Forall₂ R) a.toList b.toList :=
  .cons h.first h.others

theorem Reads.like (hR : Likeness R) {depth : Nat} {a : ArgumentList} (ha : Reads depth ts a)
    (h : List.Forall₂ R ts us) : ∃ b, Reads depth us b ∧ Like R a b := by
  induction ha generalizing us with
  | close hk =>
    cases h with
    | cons ht hts => exact ⟨_, .close (hR.kind ht ▸ hk), .nil, .nil, rfl⟩
  | leave hk _ ih =>
    cases h with
    | cons ht hts =>
      obtain ⟨b, hb, hab⟩ := ih hts
      exact ⟨_, .leave (hR.kind ht ▸ hk) hb, hab.keep ht⟩
  | enter hk _ ih =>
    cases h with
    | cons ht hts =>
      obtain ⟨b, hb, hab⟩ := ih hts
      exact ⟨_, .enter (hR.kind ht ▸ hk) hb, hab.keep ht⟩
  | comma hk _ ih =>
    cases h with
    | cons ht hts =>
      obtain ⟨b, hb, hab⟩ := ih hts
      exact ⟨_, .comma (hR.kind ht ▸ hk) hb, hab.split⟩
  | layout hk _ ih =>
    cases h with
    | cons ht hts =>
      obtain ⟨b, hb, hab⟩ := ih hts
      exact ⟨_, .layout (by simpa only [Token.isLayout, hR.kind ht] using hk) hb, hab.skip⟩
  | plain hr hl hc hk _ ih =>
    cases h with
    | cons ht hts =>
      obtain ⟨b, hb, hab⟩ := ih hts
      have hk' := hk
      rw [hR.kind ht] at hr hl hc
      exact ⟨_, .plain hr hl hc (by simpa only [Token.isLayout, hR.kind ht] using hk) hb,
        hab.keep ht⟩

/-- The lists are read alike, and neither can be read if the other cannot. -/
theorem read_like (hR : Likeness R) (h : List.Forall₂ R ts us) (depth : Nat) :
    Option.Rel (Like R) (read depth ts) (read depth us) := by
  cases ha : read depth ts with
  | some a =>
    obtain ⟨b, hb, hab⟩ := (reads_of_read ha).like hR h
    rw [read_of_reads hb]
    exact .some hab
  | none =>
    cases hb : read depth us with
    | none => exact .none
    | some b =>
      obtain ⟨a, ha', -⟩ := (reads_of_read hb).like hR.flip (List.Forall₂.flip h)
      rw [read_of_reads ha'] at ha
      cases ha

end ArgumentList

theorem substitute_like (hR : Likeness R) (h : List.Forall₂ R ts us) {bs cs : Bindings}
    (hb : ∀ name, Option.Rel (List.Forall₂ R) (bs.lookup name) (cs.lookup name))
    (afterArgument : Bool) :
    List.Forall₂ R (substitute bs afterArgument ts) (substitute cs afterArgument us) := by
  induction h generalizing afterArgument with
  | nil => exact .nil
  | @cons t u ts us h hs ih =>
    have harg : Option.Rel (List.Forall₂ R) (bs.argument? t) (cs.argument? u) := by
      unfold Bindings.argument?
      rw [← hR.kind h]
      split
      · next hk => exact hR.name h hk ▸ hb t.text
      · exact .none
    simp only [substitute]
    generalize bs.argument? t = x at harg
    generalize cs.argument? u = y at harg
    cases harg with
    | none => exact .cons (Token.placed_like hR h afterArgument) (ih false)
    | some ha => exact append_like (hR.spaced h ▸ respace_like hR ha t.spaced) (ih true)

theorem lookup_zip_like {parameters : List Text} {as bs : List (List Token)}
    (h : List.Forall₂ (List.Forall₂ R) as bs) (name : Text) :
    Option.Rel (List.Forall₂ R) ((parameters.zip as).lookup name)
      ((parameters.zip bs).lookup name) := by
  induction h generalizing parameters with
  | nil => simp
  | cons ha has ih =>
    cases parameters with
    | nil => simp
    | cons p ps =>
      simp only [List.zip_cons_cons, List.lookup_cons]
      split
      · exact .some ha
      · exact ih

namespace Invocation

theorem fitArguments_like {as bs : List (List Token)} (h : List.Forall₂ (List.Forall₂ R) as bs)
    (expected : Nat) :
    List.Forall₂ (List.Forall₂ R) (fitArguments expected as) (fitArguments expected bs) := by
  have hempty : as = [[]] ↔ bs = [[]] := by
    cases h with
    | nil => simp
    | cons ha has => cases ha <;> cases has <;> simp
  unfold fitArguments
  simp only [hempty]
  split
  · exact .nil
  · exact h

theorem objectLike_like {m n : Macro} (h : Macro.Like R m n) (hp : m.parameters = none) :
    Like R (objectLike m) (objectLike n) := by
  constructor
  · simpa [substitution, objectLike, hp, ← h.parameters] using h.body
  · rfl

theorem call_like (hR : Likeness R) {m n : Macro} (h : Macro.Like R m n) {parameters : List Text}
    (hp : m.parameters = some parameters) {t u : Token} (ht : R t u) (hk : t.kind = .identifier)
    (hm : m.name = t.text) (breaks : Nat) (hi : List.Forall₂ R ts us) :
    Agree (FailsLike R) (Like R) (call m parameters t breaks ts) (call n parameters u breaks us) := by
  have hread := ArgumentList.read_like hR hi 0
  unfold call
  generalize ArgumentList.read 0 ts = x at hread
  generalize ArgumentList.read 0 us = y at hread
  cases hread with
  | none => exact .error (hR.name ht hk ▸ .unterminated ht hk)
  | @some a b hab =>
    have hfit := fitArguments_like hab.toList parameters.length
    simp only [← hfit.length_eq]
    split
    · refine .ok ⟨?_, by simp [hab.length]⟩
      simp only [substitution, hp, ← h.parameters, Option.getD_some]
      exact substitute_like hR h.body (fun name => lookup_zip_like hfit name) false
    · rw [← h.name, hm]
      exact .error (.argumentCount ht hk _ _)

end Invocation

theorem Invocation.scan_like (hR : Likeness R) {r q : Registry} (hr : r.Like R q)
    {t u : Token} (ht : R t u) (hs : List.Forall₂ R ts us) :
    Agree (FailsLike R) (Option.Rel (Like R)) (scan r t ts) (scan q u us) := by
  unfold scan
  rw [← hR.kind ht]
  split
  · exact .ok .none
  next hk =>
    have hk : t.kind = .identifier := by simpa using hk
    have hl := hr t.text
    rw [← hR.name ht hk]
    generalize hm : r.lookup t.text = x at hl
    generalize q.lookup t.text = y at hl
    cases hl with
    | none => exact .ok .none
    | @some m n hmn =>
      cases hp : m.parameters with
      | none =>
        simp only [hp, ← hmn.parameters]
        exact .ok (.some (objectLike_like hmn hp))
      | some parameters =>
        have hbreaks : (ts.takeWhile fun t => t.kind = .eol).length =
            (us.takeWhile fun t => t.kind = .eol).length :=
          length_takeWhile_like (fun t u h => by simp [hR.kind h]) hs
        have hdrop := List.forall₂_drop (us.takeWhile fun t => t.kind = .eol).length hs
        simp only [hp, ← hmn.parameters, hbreaks]
        generalize ts.drop _ = vs at hdrop
        generalize us.drop _ = ws at hdrop
        cases hdrop with
        | nil => exact .ok .none
        | cons ho hinner =>
          simp only [hR.kind ho]
          split
          · exact .ok .none
          · have hname : m.name = t.text := Registry.name_of_lookup hm
            exact (call_like hR hmn hp ht hk hname _ hinner).map fun _ _ h => .some h

theorem invocation?_like (hR : Likeness R) {r q : Registry} (hr : r.Like R q) (g : Guard)
    {t u : Token} (ht : R t u) (hs : List.Forall₂ R ts us) :
    Agree (FailsLike R) (Option.Rel (Invocation.Like R)) (invocation? r g t ts)
      (invocation? q g u us) := by
  unfold invocation?
  rw [← hR.kind ht]
  by_cases hk : t.kind = .identifier
  · rw [← hR.name ht hk]
    split
    · exact Invocation.scan_like hR hr ht hs
    · exact .ok .none
  · simp only [hk, false_and, if_false]
    exact .ok .none

/-- Whatever a list expands to, a list that is like it expands to something like that. -/
theorem Expands.like (hR : Likeness R) {r q : Registry} (hr : r.Like R q) {limit : Option Int}
    {depth : Int} {g : Guard} {afterSplice : Bool} {x : Except Error (List Token)}
    (h : Expands r limit depth g afterSplice ts x) (hs : List.Forall₂ R ts us) :
    ∃ y, Expands q limit depth g afterSplice us y ∧ Agree (FailsLike R) (List.Forall₂ R) x y := by
  induction h generalizing us with
  | done => cases hs; exact ⟨_, .done, .ok .nil⟩
  | @fault depth g afterSplice t rest e hi =>
    cases hs with
    | cons ht hs =>
      obtain ⟨f, hi', hf⟩ := (hi ▸ invocation?_like hR hr g ht hs).of_error
      exact ⟨_, .fault hi', .error hf⟩
  | @keep depth g afterSplice t rest x hi hr' ih =>
    cases hs with
    | cons ht hs =>
      obtain ⟨_, hi', ⟨⟩⟩ := (hi ▸ invocation?_like hR hr g ht hs).of_ok
      obtain ⟨y, hrun, hxy⟩ := ih hs
      refine ⟨_, .keep hi' hrun, hxy.map fun _ _ h => ?_⟩
      exact append_like (.cons (Token.placed_like hR ht afterSplice) .nil) h
  | @tooDeep depth g afterSplice t rest i most hi hl hd =>
    have hk := (found_of_invocation? hi).1
    cases hs with
    | cons ht hs =>
      obtain ⟨_, hi', ⟨⟩⟩ := (hi ▸ invocation?_like hR hr g ht hs).of_ok
      exact ⟨_, .tooDeep hi' hl hd, .error (hR.name ht hk ▸ .recursionLimit ht hk _)⟩
  | @abort depth g afterSplice t rest i e hi hd hn ih =>
    have hk := (found_of_invocation? hi).1
    cases hs with
    | cons ht hs =>
      obtain ⟨_, hi', hij⟩ := (hi ▸ invocation?_like hR hr g ht hs).of_ok
      cases hij with
      | some hij =>
        obtain ⟨y, hrun, hxy⟩ := ih hij.substitution
        obtain ⟨f, rfl, hf⟩ := hxy.of_error
        exact ⟨_, .abort hi' hd (hR.name ht hk ▸ hrun), .error hf⟩
  | @splice depth g afterSplice t rest i body x hi hd hn hr' ihn ihr =>
    have hk := (found_of_invocation? hi).1
    cases hs with
    | @cons _ u _ us ht hs =>
      obtain ⟨_, hi', hij⟩ := (hi ▸ invocation?_like hR hr g ht hs).of_ok
      cases hij with
      | @some _ j hij =>
        have hspaced := hR.spaced (Token.placed_like hR ht afterSplice)
        have hdrop : List.Forall₂ R (rest.drop i.following) (us.drop j.following) :=
          hij.following ▸ List.forall₂_drop i.following hs
        obtain ⟨y, hrun, hxy⟩ := ihn hij.substitution
        obtain ⟨body', rfl, hbody⟩ := hxy.of_ok
        obtain ⟨z, hrest, hxz⟩ := ihr hdrop
        refine ⟨_, .splice hi' hd (hR.name ht hk ▸ hrun) hrest, hxz.map fun _ _ h => ?_⟩
        exact append_like (hspaced ▸ respace_like hR hbody _) h

end

/-- The same token, perhaps at another place. -/
structure Token.Moved (t u : Token) : Prop where
  kind : t.kind = u.kind
  text : t.text = u.text
  spaced : t.spaced = u.spaced

theorem Token.Moved.rfl {t : Token} : t.Moved t := ⟨Eq.refl _, Eq.refl _, Eq.refl _⟩

theorem moved_refl (ts : List Token) : List.Forall₂ Token.Moved ts ts :=
  List.forall₂_same.mpr fun _ _ => .rfl

theorem likeness_moved : Likeness Token.Moved where
  kind h := h.kind
  name h _ := h.text
  spaced h := h.spaced
  withSpacing _ h := ⟨h.kind, h.text, rfl⟩

end TextMacros
