import Mathlib
import TextMacros.Proofs.ArgumentReading
import TextMacros.Proofs.Contents

/-!
# Balanced parentheses

The parentheses of a list are balanced if they form a Dyck word. Whatever is
left of such a list closes just what was opened before it, so every list of
arguments in it ends, and each argument is balanced by itself.
-/

set_option autoImplicit false

namespace TextMacros

def Token.parenthesis? (t : Token) : Option DyckStep :=
  if t.kind = .lparen then some .U else if t.kind = .rparen then some .D else none

def parentheses (ts : List Token) : List DyckStep := ts.filterMap Token.parenthesis?

def Balanced (ts : List Token) : Prop := ∃ w : DyckWord, w.toList = parentheses ts

def Registry.Balanced (r : Registry) : Prop :=
  ∀ name m, r.lookup name = some m → TextMacros.Balanced m.body

/-- The steps close all that they open, and `depth` more. -/
def Settles : Nat → List DyckStep → Prop
  | depth, [] => depth = 0
  | depth, .U :: w => Settles (depth + 1) w
  | 0, .D :: _ => False
  | depth + 1, .D :: w => Settles depth w

instance decidableSettles : ∀ depth w, Decidable (Settles depth w)
  | depth, [] => inferInstanceAs (Decidable (depth = 0))
  | depth, .U :: w => decidableSettles (depth + 1) w
  | 0, .D :: _ => inferInstanceAs (Decidable False)
  | depth + 1, .D :: w => decidableSettles depth w

/-- The bound holds before the first step, and a step adds the same to all bounds after it. -/
theorem settles_iff_count (depth : Nat) (w : List DyckStep) :
    Settles depth w ↔ w.count .U + depth = w.count .D ∧
      ∀ i, (w.take i).count .D ≤ (w.take i).count .U + depth := by
  induction w generalizing depth with
  | nil => simp [Settles]
  | cons s w ih =>
    rw [← Nat.and_forall_add_one (p := fun i =>
      ((s :: w).take i).count .D ≤ ((s :: w).take i).count .U + depth)]
    cases s with
    | U =>
      rw [Settles, ih]
      simp [Nat.add_assoc, Nat.add_comm 1 depth]
    | D =>
      cases depth with
      | zero =>
        simp only [Settles, false_iff, not_and]
        intro _ _ hi
        simpa using hi 0
      | succ depth =>
        rw [Settles, ih]
        simp [← Nat.add_assoc]

theorem balanced_iff (ts : List Token) : Balanced ts ↔ Settles 0 (parentheses ts) := by
  rw [settles_iff_count]
  constructor
  · rintro ⟨w, hw⟩
    rw [← hw]
    exact ⟨w.count_U_eq_count_D, w.count_D_le_count_U⟩
  · rintro ⟨hc, hi⟩
    exact ⟨⟨_, hc, hi⟩, rfl⟩

instance (ts : List Token) : Decidable (Balanced ts) :=
  decidable_of_iff _ (balanced_iff ts).symm

/-- What comes first closes its own share, and the rest closes the other. -/
theorem settles_append_iff {depth : Nat} {v : List DyckStep} (h : Settles depth v) (more : Nat)
    (w : List DyckStep) : Settles (depth + more) (v ++ w) ↔ Settles more w := by
  induction v generalizing depth with
  | nil =>
    obtain rfl : depth = 0 := h
    simp
  | cons s v ih =>
    cases s with
    | U =>
      have hv : Settles (depth + 1 + more) (v ++ w) ↔ Settles more w := ih h
      rwa [Nat.add_right_comm] at hv
    | D =>
      cases depth with
      | zero => exact h.elim
      | succ depth =>
        have hv : Settles depth v := h
        rw [Nat.add_right_comm]
        exact ih hv

section
variable {t : Token} {ts : List Token}

theorem parentheses_open (h : t.kind = .lparen) (ts : List Token) :
    parentheses (t :: ts) = .U :: parentheses ts := by
  simp [parentheses, Token.parenthesis?, h]

theorem parentheses_close (h : t.kind = .rparen) (ts : List Token) :
    parentheses (t :: ts) = .D :: parentheses ts := by
  simp [parentheses, Token.parenthesis?, h]

theorem parentheses_other (hl : t.kind ≠ .lparen) (hr : t.kind ≠ .rparen) (ts : List Token) :
    parentheses (t :: ts) = parentheses ts := by
  simp [parentheses, Token.parenthesis?, hl, hr]

@[simp] theorem parentheses_append (ts us : List Token) :
    parentheses (ts ++ us) = parentheses ts ++ parentheses us :=
  List.filterMap_append

@[simp] theorem parentheses_placed (afterSplice : Bool) (t : Token) (ts : List Token) :
    parentheses (t.placed afterSplice :: ts) = parentheses (t :: ts) := by
  simp only [parentheses, List.filterMap_cons, Token.parenthesis?, Token.kind_placed]

@[simp] theorem parentheses_respace (spaced : Option Bool) (ts : List Token) :
    parentheses (respace spaced ts) = parentheses ts := by
  cases ts with
  | nil => rfl
  | cons t ts => rfl

/-- Once a token is read, all that closes what is then open will do. -/
theorem exists_settles_tail {depth : Nat} (h : Settles depth (parentheses (t :: ts))) :
    ∃ left, Settles left (parentheses ts) ∧
      ∀ us, Settles left (parentheses us) → Settles depth (parentheses (t :: us)) := by
  by_cases hl : t.kind = .lparen
  · simp only [parentheses_open hl] at h ⊢
    exact ⟨depth + 1, h, fun _ hus => hus⟩
  by_cases hr : t.kind = .rparen
  · simp only [parentheses_close hr] at h ⊢
    cases depth with
    | zero => exact h.elim
    | succ depth => exact ⟨depth, h, fun _ hus => hus⟩
  · simp only [parentheses_other hl hr] at h ⊢
    exact ⟨depth, h, fun _ hus => hus⟩

end

theorem Bindings.argument?_identifier {bs : Bindings} {t : Token} {a : List Token}
    (h : bs.argument? t = some a) : t.kind = .identifier := by
  by_contra hk
  simp [argument?, hk] at h

/-- Balanced arguments in the place of names open nothing and close nothing. -/
theorem settles_substitute {bs : Bindings}
    (hbs : ∀ t a, bs.argument? t = some a → Settles 0 (parentheses a))
    (afterArgument : Bool) {body : List Token} {depth : Nat}
    (h : Settles depth (parentheses body)) :
    Settles depth (parentheses (substitute bs afterArgument body)) := by
  induction body generalizing depth afterArgument with
  | nil => exact h
  | cons t body ih =>
    cases ha : bs.argument? t with
    | some a =>
      have hk := Bindings.argument?_identifier ha
      rw [parentheses_other (by simp [hk]) (by simp [hk])] at h
      have happ := settles_append_iff (hbs t a ha) depth (parentheses (substitute bs true body))
      rw [Nat.zero_add] at happ
      simpa only [substitute, ha, parentheses_append, parentheses_respace] using
        happ.mpr (ih true h)
    | none =>
      have heq : substitute bs afterArgument (t :: body) =
          t.placed afterArgument :: substitute bs false body := by
        rw [substitute, ha]
        rfl
      obtain ⟨left, htail, hcons⟩ := exists_settles_tail h
      rw [heq, parentheses_placed]
      exact hcons _ (ih false htail)

namespace ArgumentList

/-- Where more is closed than is open inside of a list, the list ends. -/
theorem exists_reads {ts : List Token} {depth more : Nat}
    (h : Settles (depth + 1 + more) (parentheses ts)) : ∃ a, Reads depth ts a := by
  induction ts generalizing depth with
  | nil =>
    have hd : depth + 1 + more = 0 := h
    omega
  | cons t ts ih =>
    by_cases hl : t.kind = .lparen
    · rw [parentheses_open hl] at h
      obtain ⟨a, ha⟩ : ∃ a, Reads (depth + 1) ts a := ih (Nat.add_right_comm _ more 1 ▸ h)
      exact ⟨_, .enter hl ha⟩
    by_cases hr : t.kind = .rparen
    · cases depth with
      | zero => exact ⟨_, .close hr⟩
      | succ depth =>
        rw [parentheses_close hr, Nat.add_right_comm] at h
        obtain ⟨a, ha⟩ : ∃ a, Reads depth ts a := ih h
        exact ⟨_, .leave hr ha⟩
    rw [parentheses_other hl hr] at h
    obtain ⟨a, ha⟩ := ih h
    by_cases hk : t.isLayout = true
    · exact ⟨_, .layout hk ha⟩
    by_cases hc : t.kind = .comma ∧ depth = 0
    · obtain ⟨hc, rfl⟩ := hc
      exact ⟨_, .comma hc ha⟩
    · exact ⟨_, .plain hr hl (fun hk hd => hc ⟨hk, hd⟩) (by simpa using hk) ha⟩

/-- The first argument closes what was open inside of it, the others are
balanced, and the list closes its own parenthesis as well. -/
theorem Reads.settles {ts : List Token} {depth : Nat} {a : ArgumentList} (h : Reads depth ts a) :
    Settles depth (parentheses a.first) ∧ (∀ b ∈ a.others, Settles 0 (parentheses b)) ∧
      Settles (depth + 1) (parentheses (ts.take a.length)) := by
  induction h with
  | @close t ts hk =>
    have htake : parentheses ((t :: ts).take closed.length) = [.D] := parentheses_close hk []
    rw [htake]
    exact ⟨rfl, by simp [closed], rfl⟩
  | @leave t ts depth a hk h ih =>
    simp only [keep, List.take_succ_cons, parentheses_close hk]
    exact ih
  | @enter t ts depth a hk h ih =>
    simp only [keep, List.take_succ_cons, parentheses_open hk]
    exact ih
  | @comma t ts a hk h ih =>
    obtain ⟨hfirst, hothers, hlist⟩ := ih
    have ht : parentheses ((t :: ts).take a.split.length) = parentheses (ts.take a.length) :=
      parentheses_other (by simp [hk]) (by simp [hk]) _
    rw [ht]
    exact ⟨rfl, by simpa [split] using ⟨hfirst, hothers⟩, hlist⟩
  | @layout t ts depth a hk h ih =>
    have hne : t.kind ≠ .lparen ∧ t.kind ≠ .rparen := by
      constructor <;> intro h <;> simp [Token.isLayout, h] at hk
    simpa only [skip, List.take_succ_cons, parentheses_other hne.1 hne.2] using ih
  | @plain t ts depth a hr hl hc hk h ih =>
    simpa only [keep, List.take_succ_cons, parentheses_other hl hr] using ih

theorem Reads.balanced {ts : List Token} {a : ArgumentList} (h : Reads 0 ts a) :
    ∀ b ∈ a.toList, Settles 0 (parentheses b) := by
  obtain ⟨hfirst, hothers, -⟩ := h.settles
  simpa [toList] using ⟨hfirst, hothers⟩

end ArgumentList

/-- Line breaks are no parentheses. -/
theorem parentheses_drop_breaks (ts : List Token) :
    parentheses (ts.drop (ts.takeWhile fun t => t.kind = .eol).length) = parentheses ts := by
  induction ts with
  | nil => rfl
  | cons t ts ih =>
    by_cases ht : t.kind = .eol
    · simpa [ht, parentheses_other (t := t) (by simp [ht]) (by simp [ht])] using ih
    · simp [ht]

namespace Invocation
variable {r : Registry} {t : Token} {rest : List Token} {i : Invocation}

/-- An invocation is cut out of its list with all the parentheses it opens,
and what takes its place is balanced. -/
theorem Found.settles (h : Found r t rest i) (hr : r.Balanced) {depth : Nat}
    (hrest : Settles depth (parentheses rest)) :
    Settles 0 (parentheses i.substitution) ∧
      Settles depth (parentheses (rest.drop i.following)) := by
  cases h with
  | object callee hl hp =>
    have hbody := (balanced_iff _).mp (hr _ _ hl)
    exact ⟨by simpa only [substitution, objectLike, hp] using hbody, hrest⟩
  | function callee parameters opening inner list hl hp hd ho hread hn =>
    have hreads := ArgumentList.reads_of_read hread
    constructor
    · simp only [substitution, hp, Option.getD_some]
      refine settles_substitute (fun t a ha => ?_) false ((balanced_iff _).mp (hr _ _ hl))
      have hmem := mem_of_mem_fitArguments (Bindings.mem_of_argument? ha).2.2
      exact hreads.balanced a hmem
    · have hinner : Settles (1 + depth) (parentheses inner) := by
        rw [← parentheses_drop_breaks, hd, parentheses_open ho] at hrest
        rwa [Nat.add_comm]
      rw [← List.take_append_drop list.length inner, parentheses_append] at hinner
      have hafter := (settles_append_iff hreads.settles.2.2 depth _).mp hinner
      rwa [drop_following hd]

/-- An invocation whose arguments do not end leaves a parenthesis open. -/
theorem scan_unterminated {location : Location} {name : Text}
    (h : scan r t rest = .error (.unterminatedInvocation location name)) (depth : Nat) :
    ¬Settles depth (parentheses rest) := by
  intro hrest
  unfold scan at h
  split at h
  · cases h
  split at h
  · cases h
  split at h
  · cases h
  dsimp only at h
  split at h
  · cases h
  next opening inner hd =>
  split at h
  · cases h
  next ho =>
  rw [map_eq_error, call] at h
  rw [← parentheses_drop_breaks, hd, parentheses_open (by simpa using ho)] at hrest
  have hclose : Settles (0 + 1 + depth) (parentheses inner) := by
    rwa [Nat.zero_add, Nat.add_comm]
  obtain ⟨a, ha⟩ := ArgumentList.exists_reads hclose
  rw [ArgumentList.read_of_reads ha] at h
  dsimp only at h
  split at h <;> cases h

end Invocation

/-- The result closes what the list closes, and no invocation lacks its end. -/
theorem Expands.settles {r : Registry} (hr : r.Balanced) {limit : Option Int} {depth : Int}
    {g : Guard} {afterSplice : Bool} {ts : List Token} {x : Except Error (List Token)}
    (h : Expands r limit depth g afterSplice ts x) {outside : Nat}
    (hts : Settles outside (parentheses ts)) :
    (∀ location name, x ≠ .error (.unterminatedInvocation location name)) ∧
      ∀ us, x = .ok us → Settles outside (parentheses us) := by
  induction h generalizing outside with
  | done =>
    refine ⟨by simp, ?_⟩
    rintro us ⟨⟩
    exact hts
  | @fault depth g afterSplice t rest e hi =>
    refine ⟨?_, by simp⟩
    rintro location name ⟨⟩
    unfold invocation? at hi
    split at hi
    next hk =>
      rw [parentheses_other (by simp [hk.1]) (by simp [hk.1])] at hts
      exact Invocation.scan_unterminated hi outside hts
    · cases hi
  | @keep depth g afterSplice t rest x hi hrest ih =>
    obtain ⟨left, htail, hcons⟩ := exists_settles_tail hts
    obtain ⟨hfail, hresult⟩ := ih htail
    constructor
    · intro location name hx
      exact hfail location name (map_eq_error.mp hx)
    · intro us hx
      obtain ⟨vs, rfl, rfl⟩ := map_eq_ok.mp hx
      rw [List.singleton_append, parentheses_placed]
      exact hcons vs (hresult vs rfl)
  | tooDeep => exact ⟨by simp, by simp⟩
  | @abort depth g afterSplice t rest i e hi hd hn ih =>
    obtain ⟨hk, -, hf⟩ := found_of_invocation? hi
    rw [parentheses_other (by simp [hk]) (by simp [hk])] at hts
    obtain ⟨hsub, -⟩ := hf.settles hr hts
    exact ⟨(ih hsub).1, by simp⟩
  | @splice depth g afterSplice t rest i body x hi hd hn hrest ihn ihr =>
    obtain ⟨hk, -, hf⟩ := found_of_invocation? hi
    rw [parentheses_other (by simp [hk]) (by simp [hk])] at hts
    obtain ⟨hsub, hafter⟩ := hf.settles hr hts
    obtain ⟨hfail, hresult⟩ := ihr hafter
    have hbody := (ihn hsub).2 body rfl
    constructor
    · intro location name hx
      exact hfail location name (map_eq_error.mp hx)
    · intro us hx
      obtain ⟨vs, rfl, rfl⟩ := map_eq_ok.mp hx
      have happ := settles_append_iff hbody outside (parentheses vs)
      rw [Nat.zero_add] at happ
      simpa only [parentheses_append, parentheses_respace] using happ.mpr (hresult vs rfl)

/-- Balanced parentheses stay balanced, and no invocation lacks its end, at
whatever depth it comes up. -/
theorem expand_balanced (r : Registry) (hr : r.Balanced) (limit depth : Int) (g : Guard)
    (ts : List Token) (hts : Balanced ts) :
    (∀ location name,
      (expand r limit depth g ts).result ≠ .error (.unterminatedInvocation location name)) ∧
    ∀ us, (expand r limit depth g ts).result = .ok us → Balanced us := by
  have hrun := expands_expand r limit depth g ts
  obtain ⟨hfail, hresult⟩ := hrun.settles hr ((balanced_iff ts).mp hts)
  refine ⟨hfail, fun us hus => ?_⟩
  exact (balanced_iff us).mpr (hresult us hus)

/-- `F` puts parentheses around its arguments and `N` between them. -/
def wrappingSample : Registry :=
  let touching (kind : TokenKind) (text : Text) : Token := ⟨kind, text, .definition, some false⟩
  ⟨[⟨"F", some ["x", "y"], [touching .lparen "(", touching .identifier "x",
      touching .identifier "N", touching .identifier "y", touching .rparen ")"], .definition⟩,
    ⟨"N", none, [touching .lparen "(", touching .rparen ")"], .definition⟩]⟩

theorem wrappingSample_balanced : wrappingSample.Balanced :=
  Registry.forall_lookup (by decide)

/-- An argument holds a comma between parentheses, and another one the guarded `F`. -/
theorem expand_balanced_sample :
    wrappingSample.Balanced ∧ Balanced (lexText .text "(F((1,2),F(N,3)))").tokens ∧
      ∃ us, (expand wrappingSample 3 0 [] (lexText .text "(F((1,2),F(N,3)))").tokens).result =
        .ok us ∧ parentheses us = [.U, .U, .U, .D, .U, .D, .U, .U, .D, .D, .D, .D] ∧
          Balanced us := by
  have hts : Balanced (lexText .text "(F((1,2),F(N,3)))").tokens := by
    have hp : parentheses (lexText .text "(F((1,2),F(N,3)))").tokens =
        [.U, .U, .U, .D, .U, .D, .D, .D] := by cbv
    rw [balanced_iff, hp]
    decide
  have hx : (expand wrappingSample 3 0 []
      (lexText .text "(F((1,2),F(N,3)))").tokens).result.map parentheses =
        .ok [.U, .U, .U, .D, .U, .D, .U, .U, .D, .D, .D, .D] := by cbv
  obtain ⟨us, hus, hp⟩ := map_eq_ok.mp hx
  exact ⟨wrappingSample_balanced, hts, us, hus, hp,
    (expand_balanced wrappingSample wrappingSample_balanced 3 0 [] _ hts).2 us hus⟩

end TextMacros
