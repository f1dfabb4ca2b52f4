import TextMacros.Proofs.Lexemes
import TextMacros.Proofs.Rows
import TextMacros.Token.Rendering

/-!
# The words of a line

Reading a line yields kinds and texts wherever the line stands. A token of a
text is a word that is read as itself when it is written alone, so whether
two neighbours merge is a question about the first of them and what follows.
-/

set_option autoImplicit false

namespace TextMacros

/-- What a token says, apart from its place and the space before it. -/
def Token.word (t : Token) : TokenKind × Text := (t.kind, t.text)

def words (line : Text) : List (TokenKind × Text) :=
  (lexLine .text 0 0 false line).map Token.word

theorem word_lexLine (source source' : Source) (row row' : Int) (col col' : Nat)
    (spaced spaced' : Bool) (line : Text) :
    (lexLine source row col spaced line).map Token.word =
      (lexLine source' row' col' spaced' line).map Token.word := by
  induction col, spaced, line using lexLine.induct generalizing col' spaced' with
  | case1 col spaced => simp [lexLine]
  | case2 col spaced c rest hc ih =>
    rw [lexLine, lexLine, if_pos hc, if_pos hc]
    exact ih _ _
  | case3 col spaced c rest hc lexeme ih =>
    rw [lexLine, lexLine, if_neg hc, if_neg hc, List.map_cons, List.map_cons]
    exact congrArg₂ List.cons rfl (ih _ _)

theorem word_rowBreak (source source' : Source) (row row' : Int) (line : Text) :
    (rowBreak source row line).map Token.word = (rowBreak source' row' line).map Token.word := by
  unfold rowBreak
  split <;> rfl

theorem word_lexRows {source source' : Source} {ls : List Text}
    (h : ∀ l ∈ ls, Text.WellFormed l) (row row' : Int) :
    (lexRows source row ls).tokens.map Token.word =
      (lexRows source' row' ls).tokens.map Token.word := by
  induction ls generalizing row row' with
  | nil => rfl
  | cons line ls ih =>
    have hl := h line (by simp)
    have hline := word_lexLine source source' row row' 0 0 (row > 0) (row' > 0) line.lineContent
    have hbreak := word_rowBreak source source' row row' line
    have hrest := ih (fun l hl => h l (by simp [hl])) (row + 1) (row' + 1)
    simp only [lexRows_cons hl, lexRow_eq hl, List.map_append, hline, hbreak, hrest]

theorem words_nil : words [] = [] := by
  rw [words, lexLine, List.map_nil]

theorem words_blank {c : CodePoint} (hc : c.isBlank) (rest : Text) :
    words (c :: rest) = words rest := by
  rw [words, lexLine, if_pos hc]
  exact word_lexLine ..

theorem words_cons {c : CodePoint} (hc : c.isBlank = false) (rest : Text) :
    words (c :: rest) = ((munch c rest).1, c :: rest.take (munch c rest).2) ::
      words (rest.drop (munch c rest).2) := by
  rw [words, lexLine, if_neg (by simp [hc]), List.map_cons]
  exact congrArg₂ List.cons rfl (word_lexLine ..)

/-- `text` is the first lexeme of `text ++ more`. -/
def Leads (kind : TokenKind) (text more : Text) : Prop :=
  ∃ c body, text = c :: body ∧ CodePoint.isBlank c = false ∧
    munch c (body ++ more) = (kind, body.length)

theorem Leads.congr {kind : TokenKind} {text more other : Text} (h : Leads kind text other)
    (hk : kind ≠ .comment) (hq : ¬IsStray kind text) (ho : Grows kind text → more.OpensLike other) :
    Leads kind text more := by
  obtain ⟨c, body, rfl, hc, hm⟩ := h
  exact ⟨c, body, rfl, hc, munch_append hm hk hq ho⟩

theorem words_append_iff {kind : TokenKind} {text : Text} (h : Leads kind text []) (more : Text)
    (ws : List (TokenKind × Text)) :
    words (text ++ more) = (kind, text) :: ws ↔ Leads kind text more ∧ words more = ws := by
  obtain ⟨c, body, rfl, hc, -⟩ := h
  rw [List.cons_append, words_cons hc, List.cons.injEq]
  constructor
  · rintro ⟨hword, hrest⟩
    obtain ⟨hk, ht⟩ := Prod.mk.inj hword
    have hlen : (munch c (body ++ more)).2 = body.length := by
      have hbody := congrArg List.length (List.cons.inj ht).2
      rw [List.length_take] at hbody
      have hle := munch_le c (body ++ more)
      omega
    have hm : munch c (body ++ more) = (kind, body.length) := Prod.ext hk hlen
    rw [hlen, List.drop_left] at hrest
    exact ⟨⟨c, body, rfl, hc, hm⟩, hrest⟩
  · rintro ⟨⟨c', body', heq, -, hm⟩, hrest⟩
    obtain ⟨rfl, rfl⟩ := List.cons.inj heq
    rw [hm, List.take_left, List.drop_left]
    exact ⟨rfl, hrest⟩

/-- A lexeme of a line that is read as itself when it is written again. -/
structure Lexical (kind : TokenKind) (text : Text) : Prop where
  leads : Leads kind text []
  notBroken : CodePoint.lineFeed ∉ text
  wellFormed : text.WellFormed
  notStray : ¬IsStray kind text

/-- A lexeme or a line break. -/
def Writable (kind : TokenKind) (text : Text) : Prop :=
  (kind = .eol ∧ text = [CodePoint.lineFeed]) ∨ Lexical kind text

theorem Writable.lexical {kind : TokenKind} {text : Text} (h : Writable kind text)
    (hk : kind ≠ .eol) : Lexical kind text :=
  h.elim (fun hb => absurd hb.1 hk) id

namespace Lexical
variable {kind : TokenKind} {text : Text}

theorem ne_nil (h : Lexical kind text) : text ≠ [] := by
  obtain ⟨c, body, rfl, -⟩ := h.leads
  simp

theorem ne_eol (h : Lexical kind text) : kind ≠ .eol := by
  obtain ⟨c, body, -, -, hm⟩ := h.leads
  have hk := kind_munch_ne_eol c (body ++ [])
  rwa [hm] at hk

theorem trimmed (h : Lexical kind text) : text.Trimmed := by
  obtain ⟨c, body, rfl, hc, hm⟩ := h.leads
  rw [List.append_nil] at hm
  exact munch_trimmed hc hm

theorem words_eq (h : Lexical kind text) : words text = [(kind, text)] := by
  have hw := (words_append_iff h.leads [] []).mpr ⟨h.leads, words_nil⟩
  rwa [List.append_nil] at hw

end Lexical

section
variable {source : Source} {row : Int}

theorem lexical_lexLine {col : Nat} {spaced : Bool} {line : Text}
    (hb : CodePoint.lineFeed ∉ line) (hw : line.WellFormed) :
    ∀ t ∈ lexLine source row col spaced line, ¬IsStray t.kind t.text → Lexical t.kind t.text := by
  induction col, spaced, line using lexLine.induct with
  | case1 col spaced => simp [lexLine]
  | case2 col spaced c rest hc ih =>
    rw [lexLine, if_pos hc]
    exact ih (fun h => hb (by simp [h])) fun d hd => hw d (by simp [hd])
  | case3 col spaced c rest hc lexeme ih =>
    rw [lexLine, if_neg hc]
    intro t ht hq
    cases ht with
    | head =>
      have hlen : (rest.take (munch c rest).2).length = (munch c rest).2 := by
        rw [List.length_take]
        exact Nat.min_eq_left (munch_le c rest)
      refine ⟨⟨c, _, rfl, by simpa using hc, ?_⟩, fun h => hb ?_, fun d hd => hw d ?_, hq⟩
      · rw [List.append_nil, munch_take hq, hlen]
      · exact List.cons_subset_cons c (List.take_subset _ rest) h
      · exact List.cons_subset_cons c (List.take_subset _ rest) hd
    | tail _ ht =>
      have hsub : ∀ d ∈ rest.drop lexeme.2, d ∈ c :: rest := fun d hd =>
        List.mem_cons_of_mem c (List.mem_of_mem_drop hd)
      exact ih (fun h => hb (hsub _ h)) (fun d hd => hw d (hsub d hd)) t ht hq

theorem writable_lexRow {line : Text} (h : Text.AreLines [line]) :
    ∀ t ∈ (lexRow source row line).tokens, ¬IsStray t.kind t.text → Writable t.kind t.text := by
  have hb : CodePoint.lineFeed ∉ line.lineContent := h.notBroken
  unfold lexRow
  dsimp only
  split
  · simp
  next hs =>
    have hw : ∀ c ∈ line.lineContent, CodePoint.isSurrogate c = false := by simpa using hs
    have hcontent : ∀ t ∈ lexLine source row 0 (row > 0) line.lineContent,
        ¬IsStray t.kind t.text → Writable t.kind t.text :=
      fun t ht hq => .inr (lexical_lexLine hb hw t ht hq)
    intro t ht hq
    dsimp only at ht
    split at ht
    · exact hcontent t ht hq
    · cases List.mem_append.mp ht with
      | inl ht => exact hcontent t ht hq
      | inr ht =>
        rw [List.mem_singleton.mp ht]
        exact .inl ⟨rfl, rfl⟩

theorem TokenStream.mem_append {first rest : TokenStream} {t : Token}
    (h : t ∈ (first.append rest).tokens) : t ∈ first.tokens ∨ t ∈ rest.tokens := by
  unfold append at h
  split at h
  · exact .inl h
  · exact List.mem_append.mp h

theorem writable_lexRows {ls : List Text} (h : Text.AreLines ls) :
    ∀ t ∈ (lexRows source row ls).tokens, ¬IsStray t.kind t.text → Writable t.kind t.text := by
  induction ls generalizing row with
  | nil => simp [lexRows, TokenStream.empty]
  | cons line ls ih =>
    intro t ht hq
    rw [lexRows] at ht
    cases TokenStream.mem_append ht with
    | inl ht => exact writable_lexRow h.head t ht hq
    | inr ht => exact ih h.tail t ht hq

end

/-- What is read of a text can be written again, apart from stray quotes. -/
theorem writable_lexText (source : Source) (text : Text) :
    ∀ t ∈ (lexText source text).tokens, ¬IsStray t.kind t.text → Writable t.kind t.text :=
  writable_lexRows (Text.areLines_lines text)

end TextMacros
