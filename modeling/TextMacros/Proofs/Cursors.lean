import Mathlib
import TextMacros.Proofs.Places
import TextMacros.Token.Cursor

/-!
# Cursors along a line

A cursor that reads token after token never looks outside its line and never
asks for a literal that is not there, whatever stands on the line. It reads
what the line is read as, and there is no other way to read it.
-/

set_option autoImplicit false

namespace TextMacros

namespace Text
variable {p : CodePoint → Bool} {start : Nat} {t : Text}

theorem runEnd_of_nil (h : t.drop start = []) : t.runEnd p start = start := by
  rw [runEnd, h]
  rfl

theorem runEnd_of_cons {c : CodePoint} {rest : Text} (h : t.drop start = c :: rest) :
    t.runEnd p start = if p c then t.runEnd p (start + 1) else start := by
  have hrest : t.drop (start + 1) = rest := drop_of_drop h 0
  rw [runEnd, runEnd, h, hrest, takeWhile_cons_length]
  split <;> omega

theorem runEnd_of_all (hle : start ≤ t.length) (h : ∀ c ∈ t.drop start, p c) :
    t.runEnd p start = t.length := by
  rw [runEnd, List.takeWhile_eq_self_iff.mpr h, List.length_drop]
  omega

theorem trimEnd_cons {c : CodePoint} (hc : c.isBlank = false) (t : Text) :
    trimEnd (c :: t) = c :: t.trimEnd := by
  have hlast : List.dropWhile CodePoint.isBlank [c] = [c] := by simp [hc]
  rw [trimEnd, trimEnd, dropEndWhile, dropEndWhile, List.reverse_cons, List.dropWhile_append, hlast]
  split
  · next hnil => rw [List.isEmpty_iff.mp hnil]; rfl
  · simp

end Text

section
variable {c : CodePoint} {rest : Text}

theorem LiteralKind.opens_of_openedBy? {kind : LiteralKind} (h : openedBy? c = some kind) :
    kind.opens c := by
  unfold openedBy? at h
  have hfound := List.find?_some h
  exact hfound

theorem munch_opened {kind : LiteralKind} (h : kind.opens c) : munch c rest =
    match kind.reach rest with
    | some n => (kind.tokenKind, n)
    | none => (.ofSymbol c, 0) := by
  cases kind with
  | string =>
    obtain rfl : c = CodePoint.doubleQuote := by simpa [LiteralKind.opens] using h
    exact munch_quote (.inl rfl) rest
  | character =>
    obtain rfl : c = CodePoint.singleQuote := by simpa [LiteralKind.opens] using h
    exact munch_quote (.inr rfl) rest
  | numeric =>
    have hdigit : c.isDigit := h
    unfold munch
    rw [if_neg, if_neg, if_neg, if_pos hdigit]
    · rfl
    all_goals
      intro hc
      simp only [hc] at hdigit
      exact absurd hdigit (by decide)

theorem munch_unopened (hcomment : ¬(c = CodePoint.slash ∧ rest.head? = some CodePoint.slash))
    (h : LiteralKind.openedBy? c = none) : munch c rest =
      if c.startsIdentifier then (.identifier, (rest.takeWhile CodePoint.continuesIdentifier).length)
      else (.ofSymbol c, 0) := by
  obtain ⟨hd, hq, hn⟩ : c ≠ CodePoint.doubleQuote ∧ c ≠ CodePoint.singleQuote ∧ c.isDigit = false := by
    simpa [LiteralKind.openedBy?, LiteralKind.opens] using h
  unfold munch
  rw [if_neg hcomment, if_neg hd, if_neg hq, if_neg (by simp [hn])]

end

namespace Cursor

/-- A token from the cursor on that takes `n` code points after the first one, and the cursor at
the next word behind it. -/
def lexeme (c : Cursor) (first : CodePoint) (rest : Text) (spaced : Bool) (kind : TokenKind)
    (n : Nat) : Token × Cursor :=
  (⟨kind, first :: rest.take n, c.location, some spaced⟩, c.nextWord (c.col + 1 + n))

theorem spaced_eq {c : Cursor} (h : c.col ≤ c.line.length) :
    c.spaced = .ok (c.line.blankBefore c.row c.col) := by
  obtain ⟨source, row, content, col⟩ := c
  cases col with
  | zero => rfl
  | succ col =>
    have hat : content[col]? = some content[col] := List.getElem?_eq_getElem h
    simp [spaced, Text.blankBefore, hat]

section
variable {c : Cursor} {first : CodePoint} {rest : Text} {spaced : Bool}

/-- White space behind a comment ends with the line, so the cursor stands there in either way. -/
theorem readComment_eq (hdrop : c.line.drop c.col = first :: rest) (hs : c.spaced = .ok spaced)
    (hb : first.isBlank = false) :
    c.readComment = .ok (c.lexeme first rest spaced .comment rest.trimEnd.length) := by
  have hle := Text.length_trimEnd_le rest
  have hend : c.nextWord (c.col + 1 + rest.trimEnd.length) = { c with col := c.line.length } := by
    rw [nextWord, Text.runEnd_of_all]
    · rw [Text.length_of_drop hdrop]
      omega
    · rw [Text.drop_of_drop hdrop]
      exact Text.blank_of_mem_drop_trimEnd rest
  rw [readComment, hs, hdrop, Text.trimEnd_cons hb, lexeme, Text.take_trimEnd, hend]
  rfl

theorem readIdentifier_eq (hdrop : c.line.drop c.col = first :: rest) (hs : c.spaced = .ok spaced)
    (hc : first.startsIdentifier) :
    c.readIdentifier = .ok (c.lexeme first rest spaced .identifier
      (rest.takeWhile CodePoint.continuesIdentifier).length) := by
  have hcontinues : first.continuesIdentifier := by simp [CodePoint.continuesIdentifier, hc]
  have hstop : c.line.runEnd CodePoint.continuesIdentifier c.col =
      c.col + 1 + (rest.takeWhile CodePoint.continuesIdentifier).length := by
    have hrest : c.line.drop (c.col + 1) = rest := Text.drop_of_drop hdrop 0
    rw [Text.runEnd_of_cons hdrop, if_pos hcontinues, Text.runEnd, hrest]
  have htext (n : Nat) : (c.line.take (c.col + 1 + n)).drop c.col = first :: rest.take n := by
    rw [List.drop_take, hdrop, Nat.add_assoc, Nat.add_sub_cancel_left, Nat.add_comm 1,
      List.take_succ_cons]
  rw [readIdentifier, hs, hstop, lexeme, ← htext]
  rfl

theorem readSymbol_eq (hs : c.spaced = .ok spaced) (rest : Text) :
    c.readSymbol first = .ok (c.lexeme first rest spaced (.ofSymbol first) 0) := by
  rw [readSymbol, hs]
  rfl

/-- A literal is asked for only where it opens, so the one thing that can be wrong with it is that
the line does not close it. -/
theorem readLiteral_eq (hdrop : c.line.drop c.col = first :: rest) (hs : c.spaced = .ok spaced)
    {kind : LiteralKind} (hopens : kind.opens first) :
    c.readLiteral kind = .ok (match kind.reach rest with
      | some n => (some (c.lexeme first rest spaced kind.tokenKind n).1,
          (c.lexeme first rest spaced kind.tokenKind n).2)
      | none => (none, c)) := by
  have hne : c.line.isEmpty = false := by
    cases hline : c.line with
    | nil => simp [hline] at hdrop
    | cons => rfl
  simp only [readLiteral, hne, hdrop, hopens, hs]
  cases kind.reach rest <;> rfl

theorem readToken_eq (hdrop : c.line.drop c.col = first :: rest) (hs : c.spaced = .ok spaced)
    (hb : first.isBlank = false) :
    c.readToken = .ok (c.lexeme first rest spaced (munch first rest).1 (munch first rest).2) := by
  simp only [readToken, hdrop]
  by_cases hcomment : first = CodePoint.slash ∧ rest.head? = some CodePoint.slash
  · have hmunch : munch first rest = (.comment, rest.trimEnd.length) := if_pos hcomment
    rw [if_pos hcomment, hmunch, readComment_eq hdrop hs hb]
  rw [if_neg hcomment]
  cases hkind : LiteralKind.openedBy? first with
  | some kind =>
    have hopens : kind.opens first := LiteralKind.opens_of_openedBy? hkind
    simp only [readLiteral_eq hdrop hs hopens, munch_opened hopens]
    cases kind.reach rest with
    | some n => rfl
    | none =>
      -- A quote that the line does not close stands for itself.
      exact readSymbol_eq hs rest
  | none =>
    have hmunch := munch_unopened hcomment hkind
    by_cases hi : first.startsIdentifier
    · simp only [hmunch, if_pos hi, readIdentifier_eq hdrop hs hi]
    · simp only [hmunch, if_neg hi]
      exact readSymbol_eq hs rest

end

/-- Tokens that a cursor reads one after the other, to where its line ends. -/
inductive Reads : Cursor → List Token → Cursor → Prop where
  | done {c : Cursor} (h : c.line.length ≤ c.col) : Reads c [] c
  | token {c next stop : Cursor} {t : Token} {ts : List Token} (h : c.col < c.line.length)
      (ht : c.readToken = .ok (t, next)) (hts : Reads next ts stop) : Reads c (t :: ts) stop

theorem Reads.unique {c stop stop' : Cursor} {ts ts' : List Token} (h : Reads c ts stop)
    (h' : Reads c ts' stop') : ts = ts' ∧ stop = stop' := by
  induction h generalizing ts' with
  | done hend =>
    cases h' with
    | done => exact ⟨rfl, rfl⟩
    | token hlt => omega
  | token hlt ht hts ih =>
    cases h' with
    | done hend => omega
    | token hlt' ht' hts' =>
      obtain ⟨rfl, rfl⟩ := Prod.mk.inj (Except.ok.inj (ht.symm.trans ht'))
      obtain ⟨rfl, rfl⟩ := ih hts'
      exact ⟨rfl, rfl⟩

/-! ### Lines -/

section
variable {source : Source} {row : Int} {content : Text}

theorem nextWord_end (c : Cursor) : c.nextWord c.line.length = { c with col := c.line.length } := by
  rw [nextWord, Text.runEnd_of_nil List.drop_length]

/-- The invariant of the walk is that the cursor does not stand behind the end of its line, and
that the code point before it is white space exactly if `spaced` says so. -/
theorem reads_lexLine {col : Nat} {spaced : Bool} {rest : Text} (hle : col ≤ content.length)
    (hdrop : content.drop col = rest) (hspaced : content.blankBefore row col = spaced) :
    Reads (nextWord ⟨source, row, content, 0⟩ col) (lexLine source row col spaced rest)
      ⟨source, row, content, content.length⟩ := by
  induction col, spaced, rest using lexLine.induct with
  | case1 col spaced =>
    obtain rfl : col = content.length := by
      have hend := List.drop_eq_nil_iff.mp hdrop
      omega
    have hcursor := nextWord_end ⟨source, row, content, 0⟩
    rw [lexLine, hcursor]
    exact .done (Nat.le_refl _)
  | case2 col spaced c rest hc ih =>
    have hlength := Text.length_of_drop hdrop
    have hat : content[col]? = some c := by rw [← List.head?_drop, hdrop]; rfl
    rw [lexLine, if_pos hc, nextWord, Text.runEnd_of_cons hdrop, if_pos hc]
    exact ih (by omega) (Text.drop_of_drop hdrop 0) (by simp [Text.blankBefore, hat, hc])
  | case3 col spaced c rest hc lexeme ih =>
    have hblank : c.isBlank = false := by simpa using hc
    let here : Cursor := ⟨source, row, content, col⟩
    have hs : here.spaced = .ok spaced := hspaced ▸ spaced_eq hle
    have hread := readToken_eq (c := here) hdrop hs hblank
    have hstart : nextWord ⟨source, row, content, 0⟩ col = here := by
      rw [nextWord, Text.runEnd_of_cons hdrop, if_neg hc]
    have hlength : content.length = col + 1 + rest.length := Text.length_of_drop hdrop
    have hlt : col < content.length := by omega
    have hwithin : col + 1 + lexeme.2 ≤ content.length := by
      have hreach : lexeme.2 ≤ rest.length := munch_le c rest
      omega
    rw [lexLine, if_neg hc, hstart]
    exact .token hlt hread
      (ih hwithin (Text.drop_of_drop hdrop _) (Text.blankBefore_munch hdrop hblank row))

theorem reads_line (source : Source) (row : Int) (content : Text) :
    Reads (nextWord ⟨source, row, content, 0⟩ 0) (lexLine source row 0 (row > 0) content)
      ⟨source, row, content, content.length⟩ :=
  reads_lexLine (Nat.zero_le _) List.drop_zero rfl

end

end Cursor

end TextMacros
