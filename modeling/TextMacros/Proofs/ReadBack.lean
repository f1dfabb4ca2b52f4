import Mathlib.Data.List.Chain
import TextMacros.Proofs.Contents
import TextMacros.Proofs.Words
import TextMacros.Proofs.Writing

/-!
# Reading back what was written

Tokens that are written and read again stay the same tokens exactly if none
of them is written right after a neighbour with which it would merge. Within
a line each token is told by what follows it; lines are read one by one.
-/

set_option autoImplicit false

namespace TextMacros

/-- Two tokens between which no space is known to be needed do not merge. -/
def Token.Apart (a b : Token) : Prop :=
  a.kind ≠ .eol → b.kind ≠ .eol → b.spaced = some false → a.wouldMerge b = .ok false

/-- Nothing follows a comment on its line. -/
def Token.EndsComment (a b : Token) : Prop := a.kind = .comment → b.kind = .eol

/-- Written as a text and read again, the tokens are the same as before. -/
def ReadsBack (ts : List Token) : Prop :=
  ∃ text us, render ts = .ok text ∧ (lexText .text text).toExcept = .ok us ∧
    us.map Token.word = ts.map Token.word

/-- A line without its line break, if white space does not end it. -/
structure Text.IsLine (x : Text) : Prop where
  notBroken : CodePoint.lineFeed ∉ x
  wellFormed : x.WellFormed
  trimmed : x.Trimmed

theorem Lexical.isLine {kind : TokenKind} {text : Text} (h : Lexical kind text) : text.IsLine :=
  ⟨h.notBroken, h.wellFormed, h.trimmed⟩

theorem Text.IsLine.append {x y : Text} (hx : CodePoint.lineFeed ∉ x) (hw : x.WellFormed)
    (hy : y.IsLine) (hne : y ≠ []) : Text.IsLine (x ++ y) where
  notBroken := by simp [hx, hy.notBroken]
  wellFormed := fun c hc => (List.mem_append.mp hc).elim (hw c) (hy.wellFormed c)
  trimmed := trimmed_append hy.trimmed hne x

theorem Text.isLine_nil : Text.IsLine [] := ⟨by simp, by decide, rfl⟩

theorem lexText_isLine {source : Source} {x : Text} (h : x.IsLine) :
    lexText source x = ⟨lexLine source 0 0 false x, none⟩ := by
  by_cases hne : x = []
  · rw [hne, lexLine]
    rfl
  · have hrow : lexRow source 0 x = ⟨lexLine source 0 0 false x, none⟩ := by
      rw [lexRow_eq h.wellFormed, rowBreak, Text.lineContent_of_trimmed h.trimmed, if_pos rfl,
        List.append_nil]
      rfl
    rw [lexText, lexLines, Text.lines_of_not_mem hne h.notBroken, lexRows_cons h.wellFormed, hrow,
      lexRows, TokenStream.empty, List.append_nil]

namespace Token
variable {a b : Token}

theorem alike_iff : a.alike b = true ↔ a.word = b.word := by
  simp [alike, word]

/-- Two lexemes merge unless the first one ends where the second begins. -/
theorem wouldMerge_lexical (ha : Lexical a.kind a.text) (hb : Lexical b.kind b.text) :
    ∃ merge, a.wouldMerge b = .ok merge ∧ (merge = false ↔ Leads a.kind a.text b.text) := by
  have hline : Text.IsLine (a.text ++ b.text) := .append ha.notBroken ha.wellFormed hb.isLine hb.ne_nil
  have hwords : words (a.text ++ b.text) = [a.word, b.word] ↔ Leads a.kind a.text b.text := by
    have hb' : words b.text = [b.word] := hb.words_eq
    have hab := words_append_iff ha.leads b.text [b.word]
    rw [and_iff_left hb'] at hab
    exact hab
  rw [← hwords, wouldMerge, lexText_isLine hline, words]
  generalize lexLine .text 0 0 false (a.text ++ b.text) = ts
  obtain _ | ⟨c, _ | ⟨d, _ | ⟨e, rest⟩⟩⟩ := ts
  case cons.cons.nil =>
    refine ⟨_, rfl, ?_⟩
    simp [← alike_iff]
  all_goals exact ⟨true, rfl, by simp⟩

/-- The space that is written is enough unless the tokens are not apart. -/
theorem needsSpace_lexical (ha : Lexical a.kind a.text) (hb : Lexical b.kind b.text) :
    ∃ space, a.needsSpace b = .ok space ∧
      (a.Apart b ↔ space = true ∨ Leads a.kind a.text b.text) := by
  obtain ⟨merge, hm, hl⟩ := wouldMerge_lexical ha hb
  have hne : ¬(a.kind = .eol ∨ b.kind = .eol) := by simp [ha.ne_eol, hb.ne_eol]
  rw [needsSpace, if_neg hne]
  cases hs : b.spaced with
  | none =>
    refine ⟨merge, hm, ?_⟩
    have hmerge : merge = true ∨ Leads a.kind a.text b.text := by
      cases merge with
      | true => exact .inl rfl
      | false => exact .inr (hl.mp rfl)
    simp [Apart, hs, hmerge]
  | some space =>
    refine ⟨space, rfl, ?_⟩
    cases space with
    | true => simp [Apart, hs]
    | false => simp [Apart, hs, ha.ne_eol, hb.ne_eol, hm, hl]

/-- A line break is apart from everything. -/
theorem isChain_apart_break {e : Token} (he : e.kind = .eol) (front rest : List Token) :
    (front ++ e :: rest).IsChain Apart ↔ front.IsChain Apart ∧ rest.IsChain Apart := by
  have hbefore : ∀ t : Token, t.Apart e := fun t _ h => absurd he h
  have hafter : ∀ t, e.Apart t := fun t h => absurd he h
  rw [List.isChain_append, List.isChain_cons]
  simp [hbefore, hafter]

end Token

theorem leads_space {kind : TokenKind} {text : Text} (h : Lexical kind text)
    (hk : kind ≠ .comment) (rest : Text) : Leads kind text (CodePoint.space :: rest) :=
  h.leads.congr hk h.notStray fun _ => .of_blank rfl rest []

theorem leads_append_iff {kind : TokenKind} {text next : Text} (h : Lexical kind text)
    (hk : kind ≠ .comment) (hne : next ≠ []) (rest : Text) :
    Leads kind text (next ++ rest) ↔ Leads kind text next := by
  have ho : next.OpensLike (next ++ rest) ∧ (next ++ rest).OpensLike next := by
    have h := Text.OpensLike.of_append hne [] rest
    have h' := Text.OpensLike.of_append hne rest []
    rw [List.append_nil] at h h'
    exact ⟨h, h'⟩
  exact ⟨fun hl => hl.congr hk h.notStray fun _ => ho.1, fun hl => hl.congr hk h.notStray fun _ => ho.2⟩

/-- What is written after a token of a line, and when the line is read as it was. -/
theorem renderAfter_line {t : Token} {us : List Token}
    (hl : ∀ u ∈ t :: us, Lexical u.kind u.text) (hc : (t :: us).IsChain Token.EndsComment) :
    ∃ tail, renderAfter t us = .ok tail ∧ Text.IsLine (t.text ++ tail) ∧
      (words (t.text ++ tail) = (t :: us).map Token.word ↔ (t :: us).IsChain Token.Apart) := by
  induction us generalizing t with
  | nil =>
    have ht := hl t (by simp)
    refine ⟨[], rfl, by simpa using ht.isLine, ?_⟩
    simp [ht.words_eq, Token.word]
  | cons u us ih =>
    obtain ⟨htu, hc'⟩ := List.isChain_cons_cons.mp hc
    have ht := hl t (by simp)
    have hu := hl u (by simp)
    obtain ⟨tail, hr, hline, hiff⟩ := ih (fun v hv => hl v (by simp [hv])) hc'
    obtain ⟨space, hs, hapart⟩ := Token.needsSpace_lexical ht hu
    have hk : t.kind ≠ .comment := fun hk => hu.ne_eol (htu hk)
    have hne : u.text ++ tail ≠ [] := by simp [hu.ne_nil]
    have hwrite : renderAfter t (u :: us) =
        .ok ((if space then CodePoint.space :: u.text else u.text) ++ tail) := by
      rw [renderAfter, hs, hr]
      rfl
    refine ⟨_, hwrite, ?_⟩
    rw [List.isChain_cons_cons, hapart, ← hiff, List.map_cons]
    cases space with
    | true =>
      have hspaced : Text.IsLine (CodePoint.space :: (u.text ++ tail)) :=
        .append (x := [CodePoint.space]) (by decide) (by decide) hline hne
      refine ⟨.append ht.notBroken ht.wellFormed hspaced (by simp), ?_⟩
      have hw := words_append_iff ht.leads (CodePoint.space :: (u.text ++ tail))
        ((u :: us).map Token.word)
      rw [words_blank rfl] at hw
      simp only [if_true, List.cons_append, true_or, true_and]
      exact hw.trans (and_iff_right (leads_space ht hk _))
    | false =>
      refine ⟨.append ht.notBroken ht.wellFormed hline hne, ?_⟩
      have hw := words_append_iff ht.leads (u.text ++ tail) ((u :: us).map Token.word)
      rw [leads_append_iff ht hk hu.ne_nil] at hw
      simp only [Bool.false_eq_true, if_false, false_or]
      exact hw

/-- The first break of a list is told from what stands before it. -/
theorem append_break_inj {α : Type} {s : α} {xs us : List α} (hx : s ∉ xs) (hu : s ∉ us)
    (ys vs : List α) : xs ++ s :: ys = us ++ s :: vs ↔ xs = us ∧ ys = vs := by
  induction xs generalizing us with
  | nil =>
    cases us with
    | nil => simp
    | cons u us =>
      have hne : s ≠ u := fun h => hu (by simp [h])
      simp [hne]
  | cons x xs ih =>
    cases us with
    | nil =>
      have hne : x ≠ s := fun h => hx (by simp [h])
      simp [hne]
    | cons u us =>
      have htail : xs ++ s :: ys = us ++ s :: vs ↔ xs = us ∧ ys = vs :=
        ih (fun h => hx (by simp [h])) fun h => hu (by simp [h])
      simp [htail, and_assoc]

/-- Up to its line break a text is one line. -/
theorem lexText_break {x : Text} (hx : x.IsLine) {y : Text} (hy : y.WellFormed) :
    (lexText .text (x ++ CodePoint.lineFeed :: y)).tokens.map Token.word =
      words x ++ (.eol, [CodePoint.lineFeed]) :: (lexText .text y).tokens.map Token.word := by
  have hline : Text.WellFormed (x ++ [CodePoint.lineFeed]) := by
    intro c hc
    cases List.mem_append.mp hc with
    | inl hc => exact hx.wellFormed c hc
    | inr hc => rw [List.mem_singleton.mp hc]; rfl
  have hrow : (lexRow .text 0 (x ++ [CodePoint.lineFeed])).tokens.map Token.word =
      words x ++ [(.eol, [CodePoint.lineFeed])] := by
    rw [lexRow_eq hline, rowBreak_terminated ⟨x, hx.notBroken, rfl⟩, Text.lineContent_terminated,
      Text.lineContent_of_trimmed hx.trimmed, List.map_append]
    exact congrArg₂ _ (word_lexLine ..) rfl
  have hrest : (lexRows .text (0 + 1) y.lines).tokens.map Token.word =
      (lexRows .text 0 y.lines).tokens.map Token.word := word_lexRows hy.lines _ _
  rw [lexText, lexLines, Text.lines_append hx.notBroken, lexRows_cons hline, List.map_append, hrow, hrest,
    List.append_assoc]
  rfl

theorem render_line {ts : List Token} (hl : ∀ t ∈ ts, Lexical t.kind t.text)
    (hc : ts.IsChain Token.EndsComment) :
    ∃ x, render ts = .ok x ∧ x.IsLine ∧
      (words x = ts.map Token.word ↔ ts.IsChain Token.Apart) := by
  cases ts with
  | nil => exact ⟨[], rfl, Text.isLine_nil, by simp [words_nil]⟩
  | cons t us =>
    obtain ⟨tail, hr, hline, hiff⟩ := renderAfter_line hl hc
    refine ⟨t.text ++ tail, ?_, hline, hiff⟩
    rw [render, hr]
    rfl

theorem eol_notMem_words (x : Text) : (.eol, [CodePoint.lineFeed]) ∉ words x := by
  intro h
  obtain ⟨t, ht, hw⟩ := List.mem_map.mp h
  exact kind_lexLine_ne_eol _ _ _ t ht (congrArg Prod.fst hw)

theorem exists_break (ts : List Token) :
    (∀ t ∈ ts, t.kind ≠ .eol) ∨
      ∃ front e rest, ts = front ++ e :: rest ∧ (∀ t ∈ front, t.kind ≠ .eol) ∧ e.kind = .eol := by
  induction ts with
  | nil => exact .inl (by simp)
  | cons t ts ih =>
    by_cases ht : t.kind = .eol
    · exact .inr ⟨[], t, ts, rfl, by simp, ht⟩
    · cases ih with
      | inl hts => exact .inl (by simpa using ⟨ht, hts⟩)
      | inr hts =>
        obtain ⟨front, e, rest, rfl, hf, he⟩ := hts
        exact .inr ⟨t :: front, e, rest, rfl, by simpa using ⟨ht, hf⟩, he⟩

/-- Lines are written and read one by one. -/
theorem render_reads {ts : List Token} (hw : Throughout Writable ts)
    (hc : ts.IsChain Token.EndsComment) :
    ∃ text, render ts = .ok text ∧ text.WellFormed ∧
      ((lexText .text text).tokens.map Token.word = ts.map Token.word ↔
        ts.IsChain Token.Apart) := by
  induction hn : ts.length using Nat.strong_induction_on generalizing ts with
  | _ n ih =>
    obtain hts | ⟨front, e, rest, rfl, hf, he⟩ := exists_break ts
    · obtain ⟨x, hr, hx, hiff⟩ := render_line (fun t ht => (hw t ht).lexical (hts t ht)) hc
      refine ⟨x, hr, hx.wellFormed, ?_⟩
      rw [lexText_isLine hx]
      exact hiff
    · obtain ⟨hwf, hwe, hwr⟩ : Throughout Writable front ∧ Writable e.kind e.text ∧
          Throughout Writable rest := by
        rw [throughout_append, throughout_cons] at hw
        exact hw
      have htext : e.text = [CodePoint.lineFeed] := by
        cases hwe with
        | inl h => exact h.2
        | inr h => exact absurd he h.ne_eol
      have hword : e.word = (.eol, [CodePoint.lineFeed]) := by rw [Token.word, he, htext]
      have hnot : (.eol, [CodePoint.lineFeed]) ∉ front.map Token.word := by
        intro h
        obtain ⟨t, ht, hw⟩ := List.mem_map.mp h
        exact hf t ht (congrArg Prod.fst hw)
      obtain ⟨x, hrx, hx, hiffx⟩ :=
        render_line (fun t ht => (hwf t ht).lexical (hf t ht)) hc.left_of_append
      obtain ⟨y, hry, hy, hiffy⟩ :=
        ih rest.length (by simp at hn; omega) hwr hc.right_of_append.tail rfl
      refine ⟨x ++ CodePoint.lineFeed :: y, ?_, ?_, ?_⟩
      · rw [render_append_break he, hrx, hry, htext]
        rfl
      · intro c hc
        simp only [List.mem_append, List.mem_cons] at hc
        obtain hc | rfl | hc := hc
        · exact hx.wellFormed c hc
        · rfl
        · exact hy c hc
      · rw [lexText_break hx hy, List.map_append, List.map_cons, hword,
          append_break_inj (eol_notMem_words x) hnot, hiffx, hiffy, Token.isChain_apart_break he]

/-- The exact condition for tokens to be read back as they are. -/
theorem readsBack_iff {ts : List Token} (hw : Throughout Writable ts)
    (hc : ts.IsChain Token.EndsComment) : ReadsBack ts ↔ ts.IsChain Token.Apart := by
  obtain ⟨text, hr, hwell, hiff⟩ := render_reads hw hc
  have hfail : (lexText .text text).failure = none := lexRows_failure hwell.lines
  rw [← hiff]
  constructor
  · rintro ⟨text', us, hr', hlex, hus⟩
    obtain rfl : text = text' := by simpa [hr] using hr'
    obtain ⟨rfl, -⟩ := TokenStream.toExcept_eq_ok.mp hlex
    exact hus
  · intro hus
    exact ⟨text, _, hr, TokenStream.toExcept_eq_ok.mpr ⟨rfl, hfail⟩, hus⟩

end TextMacros
