import TextMacros.Proofs.Concatenation
import TextMacros.Proofs.Layout
import TextMacros.Proofs.Spacing
import TextMacros.Proofs.Splitting

/-!
# Comments

Comments are copied, or skipped where arguments are read. In one place only
they make a difference: behind the name of a macro a comment keeps it from
getting its arguments on a later line. Where none stands there, a list may be
expanded with its comments or without them.
-/

set_option autoImplicit false

namespace TextMacros

def withoutComments (ts : List Token) : List Token := ts.filter fun t => t.kind ≠ .comment

section
variable {t : Token} {ts : List Token}

theorem withoutComments_drop (h : t.kind = .comment) (ts : List Token) :
    withoutComments (t :: ts) = withoutComments ts := by
  simp [withoutComments, h]

theorem withoutComments_keep (h : t.kind ≠ .comment) (ts : List Token) :
    withoutComments (t :: ts) = t :: withoutComments ts := by
  simp [withoutComments, h]

@[simp] theorem withoutComments_append (ts us : List Token) :
    withoutComments (ts ++ us) = withoutComments ts ++ withoutComments us :=
  List.filter_append ..

theorem withoutComments_of_none (h : ∀ t ∈ ts, t.kind ≠ .comment) : withoutComments ts = ts :=
  List.filter_eq_self.mpr (by simpa using h)

end

/-- Where only line breaks and comments stand between the name of a macro with parameters and a
parenthesis, no comment does. -/
def Uninterrupted (r : Registry) (ts : List Token) : Prop :=
  ∀ front name gap opening back, ts = front ++ name :: (gap ++ opening :: back) →
    name.kind = .identifier → (∃ m, r.lookup name.text = some m ∧ m.parameters ≠ none) →
    (∀ t ∈ gap, t.isLayout = true) → opening.kind = .lparen → ∀ t ∈ gap, t.kind ≠ .comment

theorem Uninterrupted.of_suffix {r : Registry} {ts us : List Token} (h : Uninterrupted r us)
    (hs : ts <:+ us) : Uninterrupted r ts := by
  obtain ⟨before, rfl⟩ := hs
  intro front name gap opening back hts
  exact h (before ++ front) name gap opening back (by simp [hts])

theorem uninterrupted_nil (r : Registry) : Uninterrupted r [] := by
  intro front name gap opening back h
  simp at h

/-- It is enough to look at the layout behind each name. -/
theorem uninterrupted_cons {r : Registry} {t : Token} {rest : List Token} :
    Uninterrupted r (t :: rest) ↔
      (t.kind = .identifier → (∀ m ∈ r.lookup t.text, m.parameters ≠ none →
        ∀ o ∈ (rest.dropWhile Token.isLayout).head?, o.kind = .lparen →
          ∀ u ∈ rest.takeWhile Token.isLayout, u.kind ≠ .comment)) ∧ Uninterrupted r rest := by
  constructor
  · intro h
    refine ⟨fun hk m hm hp o ho hparen => ?_, h.of_suffix (List.suffix_cons t rest)⟩
    obtain ⟨back, hback⟩ := List.head?_eq_some_iff.mp ho
    refine h [] t (rest.takeWhile Token.isLayout) o back ?_ hk ⟨m, hm, hp⟩
      (fun u hu => List.mem_takeWhile_imp hu) hparen
    rw [← hback, List.takeWhile_append_dropWhile, List.nil_append]
  · rintro ⟨hhead, hrest⟩ front name gap opening back hts hk ⟨m, hm, hp⟩ hgap hparen
    cases front with
    | cons u front =>
      obtain ⟨-, hts⟩ := List.cons.inj hts
      exact hrest front name gap opening back hts hk ⟨m, hm, hp⟩ hgap hparen
    | nil =>
      obtain ⟨rfl, rfl⟩ := List.cons.inj hts
      have hopening : opening.isLayout = false := Token.isLayout_eq_false.mpr (by simp [hparen])
      have hdrop : (gap ++ opening :: back).dropWhile Token.isLayout = opening :: back := by
        rw [List.dropWhile_append_of_pos hgap, List.dropWhile_cons_of_neg (by simp [hopening])]
      have htake : (gap ++ opening :: back).takeWhile Token.isLayout = gap := by
        rw [List.takeWhile_append_of_pos hgap, List.takeWhile_cons_of_neg (by simp [hopening]),
          List.append_nil]
      have hnone := hhead hk m hm hp opening (by rw [hdrop]; rfl) hparen
      rwa [htake] at hnone

instance decidableUninterrupted (r : Registry) : ∀ ts, Decidable (Uninterrupted r ts)
  | [] => .isTrue (uninterrupted_nil r)
  | _ :: rest =>
    have := decidableUninterrupted r rest
    decidable_of_iff _ uninterrupted_cons.symm

/-! ### Reading arguments -/

namespace ArgumentList

/-- `b` is read where the comments of `ts` are left out, and `a` where they are not. -/
structure Matches (ts : List Token) (a b : ArgumentList) : Prop where
  first : b.first = a.first
  others : b.others = a.others
  rest : (withoutComments ts).drop b.length = withoutComments (ts.drop a.length)

namespace Matches
variable {t : Token} {ts : List Token} {a b : ArgumentList}

theorem closed (h : t.kind = .rparen) : Matches (t :: ts) closed closed := by
  refine ⟨rfl, rfl, ?_⟩
  rw [withoutComments_keep (by simp [h])]
  rfl

theorem keep (h : Matches ts a b) (hk : t.kind ≠ .comment) :
    Matches (t :: ts) (keep t a) (keep t b) := by
  refine ⟨congrArg (t :: ·) h.first, h.others, ?_⟩
  rw [withoutComments_keep hk]
  exact h.rest

theorem split (h : Matches ts a b) (hk : t.kind ≠ .comment) :
    Matches (t :: ts) a.split b.split := by
  refine ⟨rfl, congrArg₂ List.cons h.first h.others, ?_⟩
  rw [withoutComments_keep hk]
  exact h.rest

theorem skip (h : Matches ts a b) (hk : t.kind ≠ .comment) : Matches (t :: ts) a.skip b.skip := by
  refine ⟨h.first, h.others, ?_⟩
  rw [withoutComments_keep hk]
  exact h.rest

theorem comment (h : Matches ts a b) (hk : t.kind = .comment) : Matches (t :: ts) a.skip b := by
  refine ⟨h.first, h.others, ?_⟩
  rw [withoutComments_drop hk]
  exact h.rest

theorem toList (h : Matches ts a b) : b.toList = a.toList :=
  congrArg₂ List.cons h.first h.others

end Matches

theorem rel_map {α β γ δ : Type} {R : α → β → Prop} {S : γ → δ → Prop} {x : Option α} {y : Option β}
    (h : Option.Rel R x y) {f : α → γ} {g : β → δ} (hf : ∀ a b, R a b → S (f a) (g b)) :
    Option.Rel S (x.map f) (y.map g) := by
  cases h with
  | none => exact .none
  | some h => exact .some (hf _ _ h)

/-- The same arguments are read with comments and without them, or none can be. -/
theorem read_withoutComments (depth : Nat) (ts : List Token) :
    Option.Rel (Matches ts) (read depth ts) (read depth (withoutComments ts)) := by
  induction depth, ts using ArgumentList.read.induct with
  | case1 => exact .none
  | case2 t ts hk =>
    rw [withoutComments_keep (by simp [hk])]
    simp only [read, hk]
    exact .some (.closed hk)
  | case3 t ts d hk ih | case4 t ts d hk ih =>
    rw [withoutComments_keep (by simp [hk])]
    simp only [read, hk]
    exact rel_map ih fun _ _ h => h.keep (by simp [hk])
  | case5 t ts hk ih =>
    rw [withoutComments_keep (by simp [hk])]
    simp only [read, hk]
    exact rel_map ih fun _ _ h => h.split (by simp [hk])
  | case6 t ts d hk ih =>
    rw [withoutComments_keep (by simp [hk])]
    simp only [read, hk]
    exact rel_map ih fun _ _ h => h.skip (by simp [hk])
  | case7 t ts d hk ih =>
    rw [withoutComments_drop hk]
    simp only [read, hk]
    rw [← Option.map_id' (x := read d (withoutComments ts))]
    exact rel_map ih fun _ _ h => h.comment hk
  | case8 t ts d h₁ h₂ h₃ h₄ h₅ h₆ ih =>
    rw [withoutComments_keep h₆, read.eq_8 t ts d h₃ h₅ h₆ h₁ h₂ h₄,
      read.eq_8 t (withoutComments ts) d h₃ h₅ h₆ h₁ h₂ h₄]
    exact rel_map ih fun _ _ h => h.keep h₆

end ArgumentList

/-! ### Scanning -/

theorem afterBreaks_break {t : Token} (h : t.kind = .eol) (ts : List Token) :
    afterBreaks (t :: ts) = afterBreaks ts := by
  simp [afterBreaks, h]

theorem afterBreaks_other {t : Token} (h : t.kind ≠ .eol) (ts : List Token) :
    afterBreaks (t :: ts) = t :: ts := by
  simp [afterBreaks, h]

theorem afterBreaks_breaks {breaks : List Token} (hb : ∀ t ∈ breaks, t.kind = .eol)
    (ts : List Token) : afterBreaks (breaks ++ ts) = afterBreaks ts := by
  induction breaks with
  | nil => rfl
  | cons t breaks ih =>
    obtain ⟨ht, hb⟩ := List.forall_mem_cons.mp hb
    rw [List.cons_append, afterBreaks_break ht, ih hb]

theorem exists_breaks {ts inner : List Token} {o : Token} (h : afterBreaks ts = o :: inner) :
    ∃ breaks, ts = breaks ++ o :: inner ∧ ∀ t ∈ breaks, t.kind = .eol := by
  induction ts with
  | nil => cases h
  | cons t ts ih =>
    by_cases ht : t.kind = .eol
    · rw [afterBreaks_break ht] at h
      obtain ⟨breaks, rfl, hb⟩ := ih h
      exact ⟨t :: breaks, rfl, List.forall_mem_cons.mpr ⟨ht, hb⟩⟩
    · rw [afterBreaks_other ht] at h
      exact ⟨[], h, by simp⟩

/-- What comes after the line breaks where the comments are left out comes after both. -/
theorem exists_gap {ts inner : List Token} {o : Token}
    (h : afterBreaks (withoutComments ts) = o :: inner) :
    ∃ gap back, ts = gap ++ o :: back ∧ ∀ t ∈ gap, t.isLayout = true := by
  induction ts with
  | nil => cases h
  | cons t ts ih =>
    by_cases hc : t.kind = .comment
    · rw [withoutComments_drop hc] at h
      obtain ⟨gap, back, rfl, hgap⟩ := ih h
      exact ⟨t :: gap, back, rfl,
        List.forall_mem_cons.mpr ⟨Token.isLayout_eq_true.mpr (.inr hc), hgap⟩⟩
    rw [withoutComments_keep hc] at h
    by_cases ht : t.kind = .eol
    · rw [afterBreaks_break ht] at h
      obtain ⟨gap, back, rfl, hgap⟩ := ih h
      exact ⟨t :: gap, back, rfl,
        List.forall_mem_cons.mpr ⟨Token.isLayout_eq_true.mpr (.inl ht), hgap⟩⟩
    · rw [afterBreaks_other ht] at h
      obtain ⟨rfl, -⟩ := List.cons.inj h
      exact ⟨[], ts, rfl, by simp⟩

namespace Invocation

/-- `j` is found where the comments of the list are left out, and `i` where they are not. -/
structure Matches (rest : List Token) (i j : Invocation) : Prop where
  callee : j.callee = i.callee
  arguments : j.arguments = i.arguments
  rest : (withoutComments rest).drop j.following = withoutComments (rest.drop i.following)

theorem Matches.substitution {rest : List Token} {i j : Invocation} (h : Matches rest i j) :
    j.substitution = i.substitution := by
  simp only [Invocation.substitution, h.callee, h.arguments]

theorem withoutComments_call {breaks : List Token} (hb : ∀ t ∈ breaks, t.kind = .eol)
    {opening : Token} (ho : opening.kind = .lparen) (inner : List Token) :
    withoutComments (breaks ++ opening :: inner) = breaks ++ opening :: withoutComments inner := by
  rw [withoutComments_append, withoutComments_keep (by simp [ho]),
    withoutComments_of_none fun t ht => by simp [hb t ht]]

theorem call_withoutComments (callee : Macro) (parameters : List Text) (name : Token)
    {breaks : List Token} (hb : ∀ t ∈ breaks, t.kind = .eol) {opening : Token}
    (ho : opening.kind = .lparen) (inner : List Token) :
    Agree Eq (Matches (breaks ++ opening :: inner))
      (call callee parameters name breaks.length inner)
      (call callee parameters name breaks.length (withoutComments inner)) := by
  have hread := ArgumentList.read_withoutComments 0 inner
  unfold call
  generalize ArgumentList.read 0 inner = x at hread
  generalize ArgumentList.read 0 (withoutComments inner) = y at hread
  cases hread with
  | none => exact .error rfl
  | @some a b hab =>
    simp only [hab.toList]
    split
    · refine .ok ⟨rfl, rfl, ?_⟩
      rw [withoutComments_call hb ho, drop_following List.drop_left, drop_following List.drop_left]
      exact hab.rest
    · exact .error rfl

variable {r : Registry} {name : Token} {rest : List Token}

/-- A macro with parameters is not invoked where no parenthesis opens its arguments. -/
theorem scan_unopened {callee : Macro} {parameters : List Text} (hk : name.kind = .identifier)
    (hl : r.lookup name.text = some callee) (hp : callee.parameters = some parameters)
    (h : ¬ ∃ o ∈ (afterBreaks rest).head?, o.kind = .lparen) : scan r name rest = .ok none := by
  rw [scan_eq_none hk]
  intro m hm
  obtain rfl := Option.some.inj (hl.symm.trans hm)
  exact ⟨by simp [hp], fun o hmem ho => h ⟨o, hmem, ho⟩⟩

/-- The same invocation is found with comments and without them, or none is, or the same fault. -/
theorem scan_withoutComments (hk : name.kind = .identifier)
    (hu : Uninterrupted r (name :: rest)) :
    Agree Eq (Option.Rel (Matches rest)) (scan r name rest)
      (scan r name (withoutComments rest)) := by
  cases hl : r.lookup name.text with
  | none =>
    simp only [scan, hk, hl]
    exact .ok .none
  | some callee =>
    cases hp : callee.parameters with
    | none =>
      simp only [scan, hk, hl, hp]
      exact .ok (.some ⟨rfl, rfl, rfl⟩)
    | some parameters =>
      by_cases ho : ∃ o ∈ (afterBreaks rest).head?, o.kind = .lparen
      · obtain ⟨o, hmem, ho⟩ := ho
        obtain ⟨inner, hafter⟩ := List.head?_eq_some_iff.mp hmem
        obtain ⟨breaks, rfl, hb⟩ := exists_breaks hafter
        rw [withoutComments_call hb ho, scan_call hk hl hp hb ho, scan_call hk hl hp hb ho]
        exact (call_withoutComments callee parameters name hb ho inner).map fun _ _ h => .some h
      · -- If the parenthesis came to stand behind the name, a comment would have kept it away.
        have hno : ¬ ∃ o ∈ (afterBreaks (withoutComments rest)).head?, o.kind = .lparen := by
          rintro ⟨o, hmem, hparen⟩
          obtain ⟨inner, hafter⟩ := List.head?_eq_some_iff.mp hmem
          obtain ⟨gap, back, rfl, hgap⟩ := exists_gap hafter
          have hnone := hu [] name gap o back rfl hk ⟨callee, hl, by simp [hp]⟩ hgap hparen
          have hb : ∀ t ∈ gap, t.kind = .eol := fun t ht =>
            (Token.isLayout_eq_true.mp (hgap t ht)).resolve_right (hnone t ht)
          rw [afterBreaks_breaks hb, afterBreaks_other (by simp [hparen])] at ho
          exact ho ⟨o, rfl, hparen⟩
        rw [scan_unopened hk hl hp ho, scan_unopened hk hl hp hno]
        exact .ok .none

end Invocation

theorem invocation?_withoutComments {r : Registry} {t : Token} {rest : List Token}
    (hu : Uninterrupted r (t :: rest)) (g : Guard) :
    Agree Eq (Option.Rel (Invocation.Matches rest)) (invocation? r g t rest)
      (invocation? r g t (withoutComments rest)) := by
  unfold invocation?
  split
  next hk => exact Invocation.scan_withoutComments hk.1 hu
  next => exact .ok .none

/-- Whatever a list expands to, it expands to the same without its comments, but for the comments
and the spaces. The tokens before a comment and behind it become neighbours, so the two runs may
differ in whether the next token stands behind a replacement. -/
theorem Expands.uncommented {r : Registry} (hr : r.Solid) {limit : Option Int} {depth : Int}
    {g : Guard} {afterSplice : Bool} {ts : List Token} {x : Except Error (List Token)}
    (h : Expands r limit depth g afterSplice ts x) (hu : Uninterrupted r ts)
    (afterSplice' : Bool) :
    ∃ y, Expands r limit depth g afterSplice' (withoutComments ts) y ∧
      Agree Eq (fun us vs => bare vs = bare (withoutComments us)) x y := by
  induction h generalizing afterSplice' with
  | done => exact ⟨_, .done, .ok rfl⟩
  | @fault depth g afterSplice t rest e hi =>
    have ht : t.kind ≠ .comment := by
      intro hc
      rw [invocation?_eq_none.mpr (by simp [hc])] at hi
      cases hi
    obtain ⟨_, hi', rfl⟩ := (hi ▸ invocation?_withoutComments hu g).of_error
    rw [withoutComments_keep ht]
    exact ⟨_, .fault hi', .error rfl⟩
  | @keep depth g afterSplice t rest x hi hrest ih =>
    obtain ⟨_, hi', ⟨⟩⟩ := (hi ▸ invocation?_withoutComments hu g).of_ok
    have hafter : Uninterrupted r rest := hu.of_suffix (List.suffix_cons t rest)
    by_cases ht : t.kind = .comment
    · obtain ⟨y, hy, hxy⟩ := ih hafter afterSplice'
      rw [withoutComments_drop ht]
      refine ⟨y, hy, ?_⟩
      cases hxy with
      | error he => exact .error he
      | @ok us vs hus =>
        have hdrop : withoutComments (t.placed afterSplice :: us) = withoutComments us :=
          withoutComments_drop (by simpa using ht) us
        exact .ok (hus.trans (congrArg bare hdrop.symm))
    · obtain ⟨y, hy, hxy⟩ := ih hafter false
      rw [withoutComments_keep ht]
      refine ⟨_, .keep hi' hy, hxy.map fun us vs hus => ?_⟩
      rw [List.singleton_append, List.singleton_append, withoutComments_keep (by simpa using ht),
        bare_cons, bare_cons, hus, Token.bare_placed, Token.bare_placed]
  | @tooDeep depth g afterSplice t rest i most hi hl hd =>
    obtain ⟨hk, -, -⟩ := found_of_invocation? hi
    obtain ⟨_, hi', ⟨⟩⟩ := (hi ▸ invocation?_withoutComments hu g).of_ok
    rw [withoutComments_keep (by simp [hk])]
    exact ⟨_, .tooDeep hi' hl hd, .error rfl⟩
  | @abort depth g afterSplice t rest i e hi hd hn ih =>
    obtain ⟨hk, -, -⟩ := found_of_invocation? hi
    obtain ⟨_, hi', hij⟩ := (hi ▸ invocation?_withoutComments hu g).of_ok
    cases hij with
    | some hij =>
      rw [withoutComments_keep (by simp [hk])]
      exact ⟨_, .abort hi' hd (hij.substitution ▸ hn), .error rfl⟩
  | @splice depth g afterSplice t rest i body x hi hd hn hrest ihn ihr =>
    obtain ⟨hk, -, hf⟩ := found_of_invocation? hi
    obtain ⟨_, hi', hij⟩ := (hi ▸ invocation?_withoutComments hu g).of_ok
    cases hij with
    | some hij =>
      have hafter : Uninterrupted r (rest.drop i.following) :=
        hu.of_suffix ((List.drop_suffix _ rest).trans (List.suffix_cons t rest))
      obtain ⟨y, hy, hxy⟩ := ihr hafter true
      have hbody := (nested_solid hr hf hn).respace
      rw [withoutComments_keep (by simp [hk])]
      refine ⟨_, .splice hi' hd (hij.substitution ▸ hn) (hij.rest ▸ hy),
        hxy.map fun us vs hus => ?_⟩
      rw [withoutComments_append, withoutComments_of_none fun u hu => (hbody _ u hu).2,
        bare_append, bare_append, bare_respace, bare_respace, hus]

/-- Where no comment stands between the name of a macro with parameters and the parenthesis that
follows it, a list expands without its comments to what it expands to with them, but for the
comments and the spaces, or fails with the same error. -/
theorem expand_withoutComments (r : Registry) (hr : r.Solid) (limit depth : Int) (g : Guard)
    (ts : List Token) (hu : Uninterrupted r ts) :
    Agree Eq (fun us vs => bare vs = bare (withoutComments us))
      (expand r limit depth g ts).result
      (expand r limit depth g (withoutComments ts)).result := by
  have hrun := expands_expand r limit depth g ts
  obtain ⟨y, hy, hxy⟩ := hrun.uncommented hr hu false
  rwa [(expands_expand r limit depth g (withoutComments ts)).unique hy]

/-- `F` writes its argument twice. -/
def commentSample : Registry :=
  ⟨[⟨"F", some ["x"], [⟨.identifier, "x", .definition, some true⟩,
    ⟨.identifier, "x", .definition, some true⟩], .definition⟩]⟩

theorem commentSample_solid : commentSample.Solid :=
  Registry.forall_lookup (by simp [commentSample, Throughout, Solid])

/-- A comment stands behind a name that gets no arguments, one in a list of arguments, where it
holds a parenthesis, and one at the end. -/
theorem expand_withoutComments_sample :
    let touching (kind : TokenKind) (text : Text) : Token := ⟨kind, text, .definition, some false⟩
    let lineBreak := touching .eol [CodePoint.lineFeed]
    let ts := [touching .identifier "F", touching .comment "// a", lineBreak,
      touching .punctuation "+", touching .identifier "F", lineBreak, touching .lparen "(",
      touching .number "1", touching .comment "// )", lineBreak, touching .rparen ")",
      touching .comment "// c"]
    commentSample.Solid ∧ Uninterrupted commentSample ts ∧
      ∃ us vs, (expand commentSample 1 0 [] ts).result = .ok us ∧
        (expand commentSample 1 0 [] (withoutComments ts)).result = .ok vs ∧
        us.map Token.text = (["F", "// a", "\n", "+", "1", "1", "// c"] : List Text) ∧
        bare vs = bare (withoutComments us) := by
  intro touching lineBreak ts
  have hu : Uninterrupted commentSample ts := by decide
  have hx : (expand commentSample 1 0 [] ts).result.map (List.map Token.text) =
      .ok (["F", "// a", "\n", "+", "1", "1", "// c"] : List Text) := by cbv
  obtain ⟨us, hus, htexts⟩ := map_eq_ok.mp hx
  have hagree := expand_withoutComments commentSample commentSample_solid 1 0 [] ts hu
  rw [hus] at hagree
  obtain ⟨vs, hvs, hbare⟩ := hagree.of_ok
  exact ⟨commentSample_solid, hu, us, vs, hus, hvs, htexts, hbare⟩

end TextMacros
