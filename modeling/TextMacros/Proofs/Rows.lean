import TextMacros.Token.Stream

/-!
# Rows

Which lists of lines are the lines of their text, and what reading such a
text yields, row by row. Only the last line may lack its line feed.
-/

set_option autoImplicit false

namespace TextMacros

theorem TokenStream.toExcept_eq_ok {s : TokenStream} {ts : List Token} :
    s.toExcept = .ok ts ↔ s.tokens = ts ∧ s.failure = none := by
  unfold toExcept
  cases s.failure <;> simp

namespace Text

/-- A line with its only line feed at its end. -/
def Terminated (line : Text) : Prop := ∃ front, CodePoint.lineFeed ∉ front ∧
  line = front ++ [CodePoint.lineFeed]

inductive AreLines : List Text → Prop where
  | nil : AreLines []
  | last {line : Text} (hne : line ≠ []) (hl : CodePoint.lineFeed ∉ line) : AreLines [line]
  | cons {line : Text} {rest : List Text} (hl : Terminated line) (hr : AreLines rest) :
      AreLines (line :: rest)

theorem lines_cons (c : CodePoint) (t : Text) :
    lines (c :: t) = if c = CodePoint.lineFeed then [c] :: lines t else consPiece c (lines t) := by
  simp [lines, cutAfter]

theorem areLines_consPiece {c : CodePoint} (hc : c ≠ CodePoint.lineFeed) {pieces : List Text}
    (h : AreLines pieces) : AreLines (consPiece c pieces) := by
  cases h with
  | nil => exact .last (by simp) (by simpa using hc.symm)
  | last hne hl => exact .last (by simp) (by simpa using ⟨hc.symm, hl⟩)
  | cons hl hr =>
    obtain ⟨front, hf, rfl⟩ := hl
    exact .cons ⟨c :: front, by simpa using ⟨hc.symm, hf⟩, rfl⟩ hr

theorem areLines_lines (t : Text) : AreLines (lines t) := by
  induction t with
  | nil => exact .nil
  | cons c t ih =>
    rw [lines_cons]
    split
    · next hc => exact .cons ⟨[], by simp, by simp [hc]⟩ ih
    · next hc => exact areLines_consPiece hc ih

theorem lines_of_not_mem {line : Text} (hne : line ≠ []) (hl : CodePoint.lineFeed ∉ line) :
    lines line = [line] :=
  cutAfter_of_none hne fun c hc => by simpa using fun (e : c = CodePoint.lineFeed) => hl (e ▸ hc)

theorem lines_append {front : Text} (hf : CodePoint.lineFeed ∉ front) (t : Text) :
    lines (front ++ CodePoint.lineFeed :: t) = (front ++ [CodePoint.lineFeed]) :: lines t :=
  cutAfter_append (fun c hc => by simpa using fun (e : c = CodePoint.lineFeed) => hf (e ▸ hc))
    (by simp) t

theorem AreLines.lines_flatten {ls : List Text} (h : AreLines ls) : lines ls.flatten = ls := by
  induction h with
  | nil => rfl
  | last hne hl => simpa using lines_of_not_mem hne hl
  | cons hl hr ih =>
    obtain ⟨front, hf, rfl⟩ := hl
    simp only [List.flatten_cons, List.append_assoc, List.singleton_append]
    rw [lines_append hf, ih]

theorem AreLines.head {line : Text} {rest : List Text} (h : AreLines (line :: rest)) :
    AreLines [line] := by
  cases h with
  | last hne hl => exact .last hne hl
  | cons hl hr => exact .cons hl .nil

theorem AreLines.tail {line : Text} {rest : List Text} (h : AreLines (line :: rest)) :
    AreLines rest := by
  cases h with
  | last => exact .nil
  | cons hl hr => exact hr

/-- Before another line, every line is terminated. -/
theorem AreLines.of_append {ls ms : List Text} (h : AreLines (ls ++ ms)) :
    AreLines ls ∧ AreLines ms ∧ (ms ≠ [] → ∀ l ∈ ls, Terminated l) := by
  induction ls with
  | nil => exact ⟨.nil, h, by simp⟩
  | cons l ls ih =>
    rw [List.cons_append] at h
    generalize he : ls ++ ms = rest at h
    cases h with
    | last hne hl =>
      obtain ⟨rfl, rfl⟩ := List.append_eq_nil_iff.mp he
      exact ⟨.last hne hl, .nil, by simp⟩
    | cons hl hr =>
      obtain ⟨hls, hms, ht⟩ := ih (he ▸ hr)
      exact ⟨.cons hl hls, hms, fun hne => by simpa using ⟨hl, ht hne⟩⟩

/-- No code point that has no UTF-8 form. -/
def WellFormed (t : Text) : Prop := ∀ c ∈ t, CodePoint.isSurrogate c = false

instance (t : Text) : Decidable t.WellFormed :=
  inferInstanceAs (Decidable (∀ c ∈ t, CodePoint.isSurrogate c = false))

theorem WellFormed.lines {t : Text} (h : t.WellFormed) : ∀ l ∈ t.lines, WellFormed l := by
  intro l hl c hc
  apply h
  rw [← flatten_lines t]
  exact List.mem_flatten.mpr ⟨l, hl, hc⟩

theorem mem_of_mem_lineContent {line : Text} {c : CodePoint} (h : c ∈ line.lineContent) :
    c ∈ line := by
  rw [lineContent, dropEndWhile, List.mem_reverse] at h
  exact List.mem_reverse.mp ((List.dropWhile_sublist _).subset h)

theorem mem_lineContent_or_isBreak {line : Text} {c : CodePoint} (h : c ∈ line) :
    c ∈ line.lineContent ∨ isBreak c = true := by
  have hsplit := List.takeWhile_append_dropWhile (p := isBreak) (l := line.reverse)
  rw [← List.mem_reverse, ← hsplit, List.mem_append] at h
  cases h with
  | inl hb => exact .inr (List.all_eq_true.mp List.all_takeWhile c hb)
  | inr hc => exact .inl (List.mem_reverse.mpr hc)

theorem not_surrogate_of_isBreak {c : CodePoint} (h : isBreak c) :
    CodePoint.isSurrogate c = false := by
  simp only [isBreak, Bool.or_eq_true, decide_eq_true_eq] at h
  rcases h with rfl | rfl <;> rfl

theorem lineContent_terminated (front : Text) :
    lineContent (front ++ [CodePoint.lineFeed]) = lineContent front := by
  simp [lineContent, dropEndWhile, isBreak]

theorem AreLines.notBroken {line : Text} {rest : List Text} (h : AreLines (line :: rest)) :
    CodePoint.lineFeed ∉ line.lineContent := by
  cases h with
  | last hne hl => exact fun hc => hl (mem_of_mem_lineContent hc)
  | cons hl hr =>
    obtain ⟨front, hf, rfl⟩ := hl
    rw [lineContent_terminated]
    exact fun hc => hf (mem_of_mem_lineContent hc)

theorem length_lineContent_le (line : Text) : line.lineContent.length ≤ line.length := by
  simpa [lineContent, dropEndWhile] using (List.dropWhile_sublist isBreak (l := line.reverse)).length_le

end Text

section
variable {source : Source} {row : Int}

theorem kind_munch_ne_eol (c : CodePoint) (rest : Text) : (munch c rest).1 ≠ .eol := by
  unfold munch TokenKind.ofSymbol
  grind

theorem kind_lexLine_ne_eol (col : Nat) (spaced : Bool) (line : Text) :
    ∀ t ∈ lexLine source row col spaced line, t.kind ≠ .eol := by
  induction col, spaced, line using lexLine.induct with
  | case1 col spaced => simp [lexLine]
  | case2 col spaced c rest hc ih => rw [lexLine, if_pos hc]; exact ih
  | case3 col spaced c rest hc lexeme ih =>
    rw [lexLine, if_neg hc]
    simp only [List.mem_cons, forall_eq_or_imp]
    exact ⟨kind_munch_ne_eol c rest, ih⟩

/-- The line break of a line, if it ends in one. -/
def rowBreak (source : Source) (row : Int) (line : Text) : List Token :=
  if line.lineContent.length = line.length then []
  else [breakToken source row line.lineContent.length]

theorem kind_rowBreak {line : Text} : ∀ t ∈ rowBreak source row line, t.kind = .eol := by
  unfold rowBreak
  split <;> simp [breakToken]

theorem lexRow_eq {line : Text} (h : line.WellFormed) :
    lexRow source row line =
      ⟨lexLine source row 0 (row > 0) line.lineContent ++ rowBreak source row line, none⟩ := by
  have hs : line.lineContent.findIdx? CodePoint.isSurrogate = none := by
    simpa using fun c hc => h c (Text.mem_of_mem_lineContent hc)
  unfold lexRow rowBreak
  simp only [hs]
  split <;> simp

theorem lexRows_cons {line : Text} (h : line.WellFormed) (rest : List Text) :
    lexRows source row (line :: rest) =
      ⟨(lexRow source row line).tokens ++ (lexRows source (row + 1) rest).tokens,
        (lexRows source (row + 1) rest).failure⟩ := by
  simp [lexRows, lexRow_eq h, TokenStream.append]

theorem lexRows_failure {ls : List Text} (h : ∀ l ∈ ls, Text.WellFormed l) :
    (lexRows source row ls).failure = none := by
  induction ls generalizing row with
  | nil => rfl
  | cons l ls ih =>
    rw [lexRows_cons (h l (by simp))]
    exact ih fun m hm => h m (by simp [hm])

theorem lexRows_append {ls ms : List Text} (h : ∀ l ∈ ls, Text.WellFormed l) :
    (lexRows source row (ls ++ ms)).tokens =
      (lexRows source row ls).tokens ++ (lexRows source (row + ls.length) ms).tokens := by
  induction ls generalizing row with
  | nil => simp [lexRows, TokenStream.empty]
  | cons l ls ih =>
    have hrow : row + ((l :: ls).length : Int) = row + 1 + ls.length := by simp; omega
    rw [List.cons_append, lexRows_cons (h l (by simp)), lexRows_cons (h l (by simp)), hrow]
    simp only
    rw [ih fun m hm => h m (by simp [hm]), List.append_assoc]

/-- A text that is read to its end is well-formed. -/
theorem lexRow_wellFormed {line : Text} (h : (lexRow source row line).failure = none) :
    line.WellFormed := by
  simp only [lexRow] at h
  split at h
  · cases h
  · next hs =>
    intro c hc
    cases Text.mem_lineContent_or_isBreak hc with
    | inl hc => simpa using List.findIdx?_eq_none_iff.mp hs c hc
    | inr hb => exact Text.not_surrogate_of_isBreak hb

theorem lexRows_wellFormed {ls : List Text} (h : (lexRows source row ls).failure = none) :
    ∀ l ∈ ls, Text.WellFormed l := by
  induction ls generalizing row with
  | nil => simp
  | cons line ls ih =>
    have hrow : (lexRow source row line).failure = none := by
      rw [lexRows, TokenStream.append] at h
      split at h <;> simp_all
    have hl : line.WellFormed := lexRow_wellFormed hrow
    rw [lexRows_cons hl] at h
    simpa using ⟨hl, ih h⟩

theorem rowBreak_terminated {line : Text} (h : line.Terminated) :
    rowBreak source row line = [breakToken source row line.lineContent.length] := by
  obtain ⟨front, -, rfl⟩ := h
  have := Text.length_lineContent_le front
  rw [rowBreak, if_neg]
  simp only [Text.lineContent_terminated, List.length_append, List.length_singleton]
  omega

end

end TextMacros
