import TextMacros.Proofs.Layout

/-!
# Neighbours

Two tokens that touch in a text are told apart by the reader. White space,
comments and line breaks keep their neighbours from touching, so the same
holds of the bodies and the arguments that are cut out of a text.
-/

set_option autoImplicit false

namespace TextMacros

/-- `R` holds of two neighbours of which the right one touches the left one. -/
def Touching (R : Token → Token → Prop) (a b : Token) : Prop := b.spaced = some false → R a b

/-- Neighbours in a text, where layout stands between tokens. -/
structure Neighbours (R : Token → Token → Prop) (a b : Token) : Prop where
  afterComment : a.kind = .comment → b.kind = .eol
  afterBreak : a.kind = .eol → b.spaced = some false → b.kind = .eol
  touching : a.isLayout = false → b.kind ≠ .eol → Touching R a b

/-- The left token ends where the right one begins. -/
def Token.Meets (a b : Token) : Prop := Leads a.kind a.text b.text

theorem isChain_and {α : Type} {R S : α → α → Prop} {xs : List α} (h : xs.IsChain R)
    (h' : xs.IsChain S) : xs.IsChain fun a b => R a b ∧ S a b := by
  induction xs with
  | nil => exact List.isChain_nil
  | cons x xs ih => exact (ih h.tail h'.tail).cons fun y hy => ⟨h.rel_head? hy, h'.rel_head? hy⟩

theorem isChain_respace {R : Token → Token → Prop} (hR : ∀ a b s, R a b → R (a.withSpacing s) b)
    {ts : List Token} (h : ts.IsChain R) (s : Option Bool) : (respace s ts).IsChain R := by
  cases ts with
  | nil => exact h
  | cons t ts => exact h.tail.cons fun u hu => hR t u s (h.rel_head? hu)

section
variable {source : Source} {row : Int}

/-- A token that touches what stands before the line begins the line. -/
theorem head_lexLine {col : Nat} {spaced : Bool} {line : Text} :
    ∀ u ∈ (lexLine source row col spaced line).head?, u.spaced = some false →
      spaced = false ∧ ∃ more, line = u.text ++ more := by
  induction col, spaced, line using lexLine.induct with
  | case1 col spaced => simp [lexLine]
  | case2 col spaced c rest hc ih =>
    rw [lexLine, if_pos hc]
    intro u hu hs
    obtain ⟨h, -⟩ := ih u hu hs
    cases h
  | case3 col spaced c rest hc lexeme ih =>
    rw [lexLine, if_neg hc]
    intro u hu hs
    obtain rfl := Option.some.inj hu
    refine ⟨by simpa using hs, rest.drop (munch c rest).2, ?_⟩
    simp

theorem neighbours_lexLine {col : Nat} {spaced : Bool} {line : Text}
    (hl : ∀ t ∈ lexLine source row col spaced line, Lexical t.kind t.text) :
    (lexLine source row col spaced line).IsChain (Neighbours Token.Meets) := by
  induction col, spaced, line using lexLine.induct with
  | case1 col spaced => rw [lexLine]; exact List.isChain_nil
  | case2 col spaced c rest hc ih =>
    rw [lexLine, if_pos hc] at hl ⊢
    exact ih hl
  | case3 col spaced c rest hc lexeme ih =>
    have hcomments : (lexLine source row col spaced (c :: rest)).IsChain Token.EndsComment :=
      isChain_lexLine col spaced (c :: rest)
    simp only [lexLine, if_neg hc] at hl hcomments ⊢
    apply (ih fun t ht => hl t (List.mem_cons_of_mem _ ht)).cons
    intro u hu
    have ht := hl _ List.mem_cons_self
    have hu' := hl u (List.mem_cons_of_mem _ (List.mem_of_mem_head? hu))
    refine ⟨hcomments.rel_head? hu, fun hk => absurd hk ht.ne_eol, fun hlay _ hs => ?_⟩
    have hk : (munch c rest).1 ≠ .comment := by
      intro hk
      simp [Token.isLayout, hk] at hlay
    obtain ⟨-, more, hmore⟩ := head_lexLine u hu hs
    have hleads : Leads (munch c rest).1 (c :: rest.take (munch c rest).2)
        (rest.drop (munch c rest).2) := by
      refine ⟨c, _, rfl, by simpa using hc, ?_⟩
      rw [List.take_append_drop, List.length_take, Nat.min_eq_left (munch_le c rest)]
    rw [hmore] at hleads
    exact (leads_append_iff ht hk hu'.ne_nil more).mp hleads

theorem neighbours_lexRow {line : Text} (h : Text.AreLines [line]) (hw : line.WellFormed)
    (hq : ∀ t ∈ (lexRow source row line).tokens, ¬IsStray t.kind t.text) :
    (lexRow source row line).tokens.IsChain (Neighbours Token.Meets) := by
  have hwritable : ∀ t ∈ (lexRow source row line).tokens, ¬IsStray t.kind t.text →
      Writable t.kind t.text := writable_lexRow h
  rw [lexRow_eq hw] at hq hwritable ⊢
  refine (neighbours_lexLine ?_).append (isChain_rowBreak _) ?_
  · intro t ht
    have hw := hwritable t (List.mem_append_left _ ht) (hq t (List.mem_append_left _ ht))
    exact hw.lexical (kind_lexLine_ne_eol _ _ _ t ht)
  · intro t _ u hu
    have hk : u.kind = .eol := kind_rowBreak u (List.mem_of_mem_head? hu)
    exact ⟨fun _ => hk, fun _ _ => hk, fun _ hne => absurd hk hne⟩

/-- No token touches a line break before it but the next one. -/
theorem head_lexRow {line : Text} (hw : line.WellFormed) (hrow : 0 < row) :
    ∀ u ∈ (lexRow source row line).tokens.head?, u.spaced = some false → u.kind = .eol := by
  intro u hu hs
  rw [lexRow_eq hw, List.head?_append] at hu
  cases hc : (lexLine source row 0 (row > 0) line.lineContent).head? with
  | none =>
    rw [hc, Option.none_or] at hu
    exact kind_rowBreak u (List.mem_of_mem_head? hu)
  | some v =>
    rw [hc] at hu
    obtain rfl := Option.some.inj hu
    obtain ⟨hspaced, -⟩ := head_lexLine v hc hs
    simp [hrow] at hspaced

theorem head_lexRows {ls : List Text} (hw : ∀ l ∈ ls, Text.WellFormed l) (hrow : 0 < row) :
    ∀ u ∈ (lexRows source row ls).tokens.head?, u.spaced = some false → u.kind = .eol := by
  induction ls generalizing row with
  | nil => simp [lexRows, TokenStream.empty]
  | cons line ls ih =>
    have hl := hw line (by simp)
    intro u hu
    rw [lexRows_cons hl, List.head?_append] at hu
    cases hc : (lexRow source row line).tokens.head? with
    | none =>
      rw [hc, Option.none_or] at hu
      exact ih (fun l hl => hw l (by simp [hl])) (by omega) u hu
    | some v =>
      rw [hc] at hu
      obtain rfl := Option.some.inj hu
      exact head_lexRow hl hrow v hc

theorem neighbours_lexRows {ls : List Text} (h : Text.AreLines ls)
    (hw : ∀ l ∈ ls, Text.WellFormed l) (hrow : 0 ≤ row)
    (hq : ∀ t ∈ (lexRows source row ls).tokens, ¬IsStray t.kind t.text) :
    (lexRows source row ls).tokens.IsChain (Neighbours Token.Meets) := by
  induction ls generalizing row with
  | nil => exact List.isChain_nil
  | cons line ls ih =>
    have hl := hw line (by simp)
    have hws : ∀ l ∈ ls, Text.WellFormed l := fun l hl => hw l (by simp [hl])
    rw [lexRows_cons hl] at hq ⊢
    have hline : (lexRow source row line).tokens.IsChain (Neighbours Token.Meets) :=
      neighbours_lexRow h.head hl fun t ht => hq t (List.mem_append_left _ ht)
    have hrest : (lexRows source (row + 1) ls).tokens.IsChain (Neighbours Token.Meets) :=
      ih h.tail hws (by omega) fun t ht => hq t (List.mem_append_right _ ht)
    cases h with
    | last hne hb => simpa [lexRows, TokenStream.empty] using hline
    | cons hterm hr =>
      apply hline.append hrest
      intro t ht u hu
      have hk : t.kind = .eol := (endsInBreak_lexRow hl hterm).getLast? t ht
      refine ⟨fun hc => ?_, fun _ => head_lexRows hws (by omega) u hu, fun hlay => ?_⟩
      · rw [hk] at hc
        cases hc
      · simp [Token.isLayout, hk] at hlay

end

section
variable {R : Token → Token → Prop}

theorem head_withoutLayout {t : Token} {ts : List Token} (ht : t.isLayout = true)
    (h : (t :: ts).IsChain (Neighbours R)) :
    ∀ u ∈ (withoutLayout ts).head?, u.spaced ≠ some false := by
  induction ts generalizing t with
  | nil => simp [withoutLayout]
  | cons x xs ih =>
    cases hx : x.isLayout with
    | true =>
      rw [withoutLayout_drop hx]
      exact ih hx h.tail
    | false =>
      rw [withoutLayout_keep hx]
      intro u hu hs
      obtain rfl := Option.some.inj hu
      have hn := h.rel_head? rfl
      have hk : x.kind = .eol :=
        (Token.isLayout_eq_true.mp ht).elim (fun hb => hn.afterBreak hb hs) hn.afterComment
      simp [Token.isLayout, hk] at hx

/-- Tokens between which layout is left out do not touch. -/
theorem touching_withoutLayout {ts : List Token} (h : ts.IsChain (Neighbours R)) :
    (withoutLayout ts).IsChain (Touching R) := by
  induction ts with
  | nil => exact List.isChain_nil
  | cons t ts ih =>
    cases ht : t.isLayout with
    | true =>
      rw [withoutLayout_drop ht]
      exact ih h.tail
    | false =>
      rw [withoutLayout_keep ht]
      apply (ih h.tail).cons
      intro u hu
      cases ts with
      | nil => simp [withoutLayout] at hu
      | cons x xs =>
        cases hx : x.isLayout with
        | true =>
          rw [withoutLayout_drop hx] at hu
          exact fun hs => absurd hs (head_withoutLayout hx h.tail u hu)
        | false =>
          rw [withoutLayout_keep hx] at hu
          obtain rfl := Option.some.inj hu
          have hk : x.kind ≠ .eol := fun hk => by simp [Token.isLayout, hk] at hx
          exact (h.rel_head? rfl).touching ht hk

theorem Neighbours.imp {S : Token → Token → Prop} {a b : Token} (h : Neighbours R a b)
    (hS : Touching R a b → Touching S a b) : Neighbours S a b :=
  ⟨h.afterComment, h.afterBreak, fun hlay hne => hS (h.touching hlay hne)⟩

theorem neighbours_of_plain {ts : List Token} (hp : Throughout Plain ts)
    (h : ts.IsChain (Touching R)) : ts.IsChain (Neighbours R) := by
  induction ts with
  | nil => exact List.isChain_nil
  | cons t ts ih =>
    obtain ⟨ht, hts⟩ := throughout_cons.mp hp
    refine (ih hts h.tail).cons fun u hu => ?_
    exact ⟨fun hk => absurd hk ht.2, fun hk => absurd hk ht.1.ne_eol, fun _ _ => h.rel_head? hu⟩

/-- Tokens of an argument touch only where they touched before. -/
theorem ArgumentList.Reads.touching {depth : Nat} {ts : List Token} {a : ArgumentList}
    (h : Reads depth ts a) (hts : (withoutLayout ts).IsChain (Touching R)) :
    (∀ argument ∈ a.toList, argument.IsChain (Touching R)) ∧
      ∀ u ∈ a.first.head?, u ∈ (withoutLayout ts).head? := by
  induction h with
  | close hk => simp [toList, closed]
  | @leave t ts depth a hk h ih | @enter t ts depth a hk h ih | @plain t ts depth a _ _ _ hk h ih =>
    have hl : t.isLayout = false := by simp_all [Token.isLayout]
    rw [withoutLayout_keep hl] at hts ⊢
    obtain ⟨hargs, hhead⟩ := ih hts.tail
    simp only [toList, List.mem_cons, forall_eq_or_imp] at hargs
    refine ⟨?_, by simp [keep]⟩
    simp only [toList, keep, List.mem_cons, forall_eq_or_imp]
    exact ⟨hargs.1.cons fun u hu => hts.rel_head? (hhead u hu), hargs.2⟩
  | @comma t ts a hk h ih =>
    have hl : t.isLayout = false := by simp [Token.isLayout, hk]
    rw [withoutLayout_keep hl] at hts ⊢
    obtain ⟨hargs, -⟩ := ih hts.tail
    simp only [toList, List.mem_cons, forall_eq_or_imp] at hargs
    simpa [toList, split] using hargs
  | @layout t ts depth a hk h ih =>
    rw [withoutLayout_drop hk] at hts ⊢
    exact ih hts

end

/-- Tokens of a body meet where they touch. -/
theorem touching_lexBody {source : Source} {t : Text} {body : List Token}
    (h : lexBody source t = .ok body) (hq : ∀ u ∈ body, ¬IsStray u.kind u.text) :
    body.IsChain (Touching Token.Meets) := by
  obtain ⟨ts, hts, rfl⟩ := map_eq_ok.mp h
  obtain ⟨rfl, hfail⟩ := TokenStream.toExcept_eq_ok.mp hts
  have hstray : ∀ u ∈ (lexText source t).tokens, ¬IsStray u.kind u.text := by
    intro u hu hs
    have hlay : u.isLayout = false := by simp [Token.isLayout, hs.1]
    exact hq u (List.mem_filter.mpr ⟨hu, by simp [hlay]⟩) hs
  apply touching_withoutLayout
  exact neighbours_lexRows (Text.areLines_lines t) (lexRows_wellFormed hfail) (by omega) hstray

end TextMacros
