import Mathlib
import TextMacros.Proofs.Chunking
import TextMacros.Proofs.Layout
import TextMacros.Proofs.Shrinking

/-!
# Normal texts

Reading a text and writing its tokens puts the text into a normal form: one
space where there was white space between tokens of a line, and nothing else
between them. The normal text reads as the text did, stray quotes included.
-/

set_option autoImplicit false

namespace TextMacros

/-- What is written of tokens that follow another token on its line. -/
def written (ts : List Token) : Text :=
  ts.flatMap fun t => if t.spaced = some true then CodePoint.space :: t.text else t.text

/-- A row as it is written once it has been read. -/
def normalRow (source : Source) (row : Int) (line : Text) : Text :=
  written (respace (some false) (lexLine source row 0 (row > 0) line.lineContent)) ++ line.lineEnd

def normalRows (source : Source) (row : Int) : List Text → Text
  | [] => []
  | line :: rest => normalRow source row line ++ normalRows source (row + 1) rest

theorem written_append (ts us : List Token) : written (ts ++ us) = written ts ++ written us :=
  List.flatMap_append

theorem written_unspaced {t : Token} (h : t.spaced = some false) (ts : List Token) :
    written (t :: ts) = t.text ++ written ts := by
  simp [written, h]

theorem written_spaced {t : Token} (h : t.spaced = some true) (ts : List Token) :
    written (t :: ts) = CodePoint.space :: (t.text ++ written ts) := by
  simp [written, h]

theorem mem_written {ts : List Token} {c : CodePoint} (h : c ∈ written ts) :
    c = CodePoint.space ∨ ∃ t ∈ ts, c ∈ t.text := by
  obtain ⟨t, ht, hc⟩ := List.mem_flatMap.mp h
  split at hc
  · exact (List.mem_cons.mp hc).imp_right fun hc => ⟨t, ht, hc⟩
  · exact .inr ⟨t, ht, hc⟩

theorem trimmed_written {ts : List Token} (h : ∀ t ∈ ts, t.text.Trimmed ∧ t.text ≠ []) :
    (written ts).Trimmed := by
  cases List.eq_nil_or_concat ts with
  | inl hts => rw [hts]; rfl
  | inr hts =>
    obtain ⟨front, t, rfl⟩ := hts
    obtain ⟨ht, hne⟩ := h t (by simp)
    rw [List.concat_eq_append, written_append]
    have hlast : ∃ lead, written [t] = lead ++ t.text := by
      by_cases hs : t.spaced = some true
      · exact ⟨[CodePoint.space], by simp [written, hs]⟩
      · exact ⟨[], by simp [written, hs]⟩
    obtain ⟨lead, hlead⟩ := hlast
    rw [hlead, ← List.append_assoc]
    exact Text.trimmed_append ht hne _

/-- Where the space between tokens is known, they are written as they are. -/
theorem renderAfter_known {p : Token} {ts : List Token} (hp : p.kind ≠ .eol)
    (hts : ∀ t ∈ ts, t.kind ≠ .eol ∧ t.spaced ≠ none) : renderAfter p ts = .ok (written ts) := by
  induction ts generalizing p with
  | nil => rfl
  | cons t ts ih =>
    obtain ⟨hk, hs⟩ := hts t (by simp)
    have hspace : p.needsSpace t = .ok (t.spaced = some true) := by
      rw [Token.needsSpace, if_neg (by simp [hp, hk])]
      cases ht : t.spaced with
      | none => exact absurd ht hs
      | some spaced => simp
    rw [renderAfter, hspace, ih hk fun u hu => hts u (by simp [hu])]
    by_cases ht : t.spaced = some true <;> simp [written, ht, bind, Except.bind, pure, Except.pure]

theorem render_known {ts : List Token} (hts : ∀ t ∈ ts, t.kind ≠ .eol ∧ t.spaced ≠ none) :
    render ts = .ok (written (respace (some false) ts)) := by
  cases ts with
  | nil => rfl
  | cons t ts =>
    have hrest : renderAfter t ts = .ok (written ts) :=
      renderAfter_known (hts t (by simp)).1 fun u hu => hts u (by simp [hu])
    rw [render, hrest, respace, written_unspaced rfl]
    rfl

section
variable {source : Source} {row : Int}

/-- The flag of a token is known, and its text is a lexeme of the line. -/
theorem mem_lexLine {col : Nat} {spaced : Bool} {line : Text} :
    ∀ t ∈ lexLine source row col spaced line, t.spaced ≠ none ∧
      (t.text.Trimmed ∧ t.text ≠ []) ∧ ∀ c ∈ t.text, c ∈ line := by
  induction col, spaced, line using lexLine.induct with
  | case1 col spaced => simp [lexLine]
  | case2 col spaced c rest hc ih =>
    rw [lexLine, if_pos hc]
    intro t ht
    obtain ⟨hs, htext, hmem⟩ := ih t ht
    exact ⟨hs, htext, fun d hd => List.mem_cons_of_mem c (hmem d hd)⟩
  | case3 col spaced c rest hc lexeme ih =>
    rw [lexLine, if_neg hc]
    intro t ht
    cases ht with
    | head =>
      have htrim : Text.Trimmed (c :: rest.take (munch c rest).2) := trimmed_munch (by simpa using hc)
      have hsub : ∀ d ∈ c :: rest.take (munch c rest).2, d ∈ c :: rest := fun d hd =>
        List.cons_subset_cons c (List.take_subset _ rest) hd
      exact ⟨by simp, ⟨htrim, by simp⟩, hsub⟩
    | tail _ ht =>
      obtain ⟨hs, htext, hmem⟩ := ih t ht
      exact ⟨hs, htext, fun d hd => List.mem_cons_of_mem c (List.mem_of_mem_drop (hmem d hd))⟩

theorem head_lexLine_spaced {col : Nat} {line : Text} :
    ∀ t ∈ (lexLine source row col true line).head?, t.spaced = some true := by
  induction line generalizing col with
  | nil => simp [lexLine]
  | cons c rest ih =>
    by_cases hc : c.isBlank
    · rw [lexLine, if_pos hc]
      exact ih
    · rw [lexLine, if_neg hc]
      simp

/-- What is written of a line is the line with its white space shortened; that
of the tokens behind `blanks` begins with a space. -/
theorem shrinks_lexLine (col : Nat) (spaced : Bool) (line : Text) :
    ∀ blanks : Text, (∀ c ∈ blanks, CodePoint.isBlank c) → (spaced = true ↔ blanks ≠ []) →
      Text.Shrinks (blanks ++ line) (written (lexLine source row col spaced line)) := by
  induction col, spaced, line using lexLine.induct with
  | case1 col spaced =>
    intro blanks hb _
    rw [lexLine, List.append_nil]
    exact .dropped hb
  | case2 col spaced c rest hc ih =>
    intro blanks hb _
    have hmore : ∀ d ∈ blanks ++ [c], CodePoint.isBlank d := by
      intro d hd
      cases List.mem_append.mp hd with
      | inl hd => exact hb d hd
      | inr hd => rwa [List.mem_singleton.mp hd]
    rw [lexLine, if_pos hc]
    simpa using ih (blanks ++ [c]) hmore (by simp)
  | case3 col spaced c rest hc lexeme ih =>
    intro blanks hb hs
    have hline := (ih [] (by simp) (by simp)).append_left (c :: rest.take (munch c rest).2)
    rw [List.nil_append, List.cons_append, List.take_append_drop] at hline
    rw [lexLine, if_neg hc]
    cases spaced with
    | true =>
      rw [written_spaced rfl]
      exact .shortened hb (hs.mp rfl) hline
    | false =>
      obtain rfl : blanks = [] := by simpa using hs
      rw [written_unspaced rfl]
      exact hline

variable {source' : Source} {row' : Int}

/-- Written behind other tokens, tokens are read as they are if they would be at the
start of a line. -/
theorem reread_tail {col' : Nat} {ts : List Token} (hts : ∀ t ∈ ts, t.spaced ≠ none)
    (h : ∀ col' s, List.Forall₂ Token.Moved (respace (some s) ts)
      (lexLine source' row' col' s (written (respace (some false) ts)))) :
    List.Forall₂ Token.Moved ts (lexLine source' row' col' false (written ts)) := by
  cases ts with
  | nil => exact h col' false
  | cons t ts =>
    have hstart : written (respace (some false) (t :: ts)) = t.text ++ written ts :=
      written_unspaced rfl ts
    rw [hstart] at h
    cases hs : t.spaced with
    | none => exact absurd hs (hts t (by simp))
    | some spaced =>
      have hself : respace (some spaced) (t :: ts) = t :: ts := by
        rw [respace, Token.withSpacing, ← hs]
      cases spaced with
      | true =>
        rw [written_spaced hs, lexLine, if_pos (show CodePoint.space.isBlank = true from rfl), ← hself]
        exact h (col' + 1) true
      | false =>
        rw [written_unspaced hs, ← hself]
        exact h col' false

/-- A line is read from its tokens as they were, at any place. -/
theorem reread_lexLine (col : Nat) (spaced : Bool) (line : Text) (col' : Nat) (s : Bool) :
    List.Forall₂ Token.Moved (respace (some s) (lexLine source row col spaced line))
      (lexLine source' row' col' s
        (written (respace (some false) (lexLine source row col spaced line)))) := by
  induction col, spaced, line using lexLine.induct generalizing col' s with
  | case1 col spaced => simp [lexLine, respace, written]
  | case2 col spaced c rest hc ih =>
    rw [lexLine, if_pos hc]
    exact ih col' s
  | case3 col spaced c rest hc lexeme ih =>
    have hflags : ∀ t ∈ lexLine source row (col + 1 + (munch c rest).2) false
        (rest.drop (munch c rest).2), t.spaced ≠ none := fun t ht => (mem_lexLine t ht).1
    have hshrinks : Text.Shrinks (rest.drop (munch c rest).2) (written (lexLine source row
        (col + 1 + (munch c rest).2) false (rest.drop (munch c rest).2))) :=
      shrinks_lexLine _ false _ [] (by simp) (by simp)
    have hcomment : (munch c rest).1 = .comment → written (lexLine source row
        (col + 1 + (munch c rest).2) false (rest.drop (munch c rest).2)) = [] := by
      intro hk
      obtain ⟨-, -, hn⟩ := munch_comment hk
      have hblank : ∀ d ∈ rest.drop (munch c rest).2, CodePoint.isBlank d :=
        hn ▸ Text.blank_of_mem_drop_trimEnd rest
      rw [lexLine_blank hblank]
      rfl
    have hmunch := munch_shrinks hshrinks hcomment
    have htail : List.Forall₂ Token.Moved
        (lexLine source row (col + 1 + (munch c rest).2) false (rest.drop (munch c rest).2))
        (lexLine source' row' (col' + 1 + (munch c rest).2) false (written (lexLine source row
          (col + 1 + (munch c rest).2) false (rest.drop (munch c rest).2)))) :=
      reread_tail hflags ih
    rw [lexLine, if_neg hc, respace, respace, written_unspaced rfl]
    simp only [Token.withSpacing, List.cons_append]
    rw [lexLine, if_neg hc, hmunch]
    refine .cons ⟨rfl, ?_, rfl⟩ ?_
    · rw [List.take_left' (length_take_munch c rest)]
    · rwa [List.drop_left' (length_take_munch c rest)]

/-- What is written of a line without line feeds is such a line again. -/
theorem isLine_written {col : Nat} {spaced : Bool} {line : Text} (hn : CodePoint.lineFeed ∉ line)
    (hw : line.WellFormed) (s : Option Bool) :
    (written (respace s (lexLine source row col spaced line))).IsLine := by
  have htexts : Throughout (fun _ text => (text.Trimmed ∧ text ≠ []) ∧ ∀ c ∈ text, c ∈ line)
      (lexLine source row col spaced line) := fun t ht => (mem_lexLine t ht).2
  have hmem := htexts.respace s
  have hchars : ∀ c ∈ written (respace s (lexLine source row col spaced line)),
      c = CodePoint.space ∨ c ∈ line := by
    intro c hc
    exact (mem_written hc).imp_right fun ⟨t, ht, hct⟩ => (hmem t ht).2 c hct
  constructor
  · intro hc
    cases hchars _ hc with
    | inl hc => exact absurd hc (by decide)
    | inr hc => exact hn hc
  · intro c hc
    cases hchars c hc with
    | inl hc => rw [hc]; rfl
    | inr hc => exact hw c hc
  · exact trimmed_written fun t ht => (hmem t ht).1

/-- Behind a line break or white space the first token is known to be spaced. -/
theorem respace_lexLine (col : Nat) (line : Text) :
    respace (some true) (lexLine source row col true line) = lexLine source row col true line := by
  have hhead : ∀ t ∈ (lexLine source row col true line).head?, t.spaced = some true :=
    head_lexLine_spaced
  cases hts : lexLine source row col true line with
  | nil => rfl
  | cons t ts =>
    have ht : t.spaced = some true := hhead t (by simp [hts])
    rw [respace, Token.withSpacing, ← ht]

end

/-! ### Rows -/

namespace Text

theorem lineEnd_terminated {line : Text} (h : line.Terminated) :
    line.lineEnd = [CodePoint.lineFeed] := by
  obtain ⟨front, -, rfl⟩ := h
  have hle : front.lineContent.length ≤ front.length := length_lineContent_le front
  rw [lineEnd, if_neg]
  simp only [lineContent_terminated, List.length_append, List.length_singleton]
  omega

theorem AreLines.rest_eq_nil {line : Text} {rest : List Text} (h : AreLines (line :: rest))
    (he : line.lineEnd = []) : rest = [] := by
  cases h with
  | last => rfl
  | cons hl hr =>
    rw [lineEnd_terminated hl] at he
    cases he

theorem lineEnd_eq (line : Text) : line.lineEnd = [] ∨ line.lineEnd = [CodePoint.lineFeed] := by
  unfold lineEnd
  split
  · exact .inl rfl
  · exact .inr rfl

/-- A line content is what its line has been stripped to. -/
theorem lineContent_append_lineEnd {x : Text} (h : x.Trimmed) (line : Text) :
    lineContent (x ++ line.lineEnd) = x := by
  cases lineEnd_eq line with
  | inl he => rw [he, List.append_nil, lineContent_of_trimmed h]
  | inr he => rw [he, lineContent_terminated, lineContent_of_trimmed h]

theorem IsLine.wellFormed_append {x : Text} (h : x.IsLine) (line : Text) :
    WellFormed (x ++ line.lineEnd) := by
  intro c hc
  cases List.mem_append.mp hc with
  | inl hc => exact h.wellFormed c hc
  | inr hc =>
    cases lineEnd_eq line with
    | inl he => simp [he] at hc
    | inr he =>
      rw [he, List.mem_singleton] at hc
      rw [hc]
      rfl

end Text

section
variable {source source' : Source} {row row' : Int} {line : Text}

theorem rowBreak_append_lineEnd {x : Text} (h : x.Trimmed) :
    List.Forall₂ Token.Moved (rowBreak source row line)
      (rowBreak source' row' (x ++ line.lineEnd)) := by
  unfold rowBreak
  rw [Text.lineContent_append_lineEnd h]
  by_cases he : line.lineContent.length = line.length
  · have hend : line.lineEnd = [] := if_pos he
    rw [if_pos he, hend, List.append_nil, if_pos rfl]
    exact .nil
  · have hend : line.lineEnd = [CodePoint.lineFeed] := if_neg he
    rw [if_neg he, hend, if_neg (by simp)]
    exact .cons ⟨rfl, rfl, rfl⟩ .nil

/-- Where only the last line lacks its break, a line that is written is read as one row. -/
theorem lexRows_append_lineEnd {x : Text} (hx : x.IsLine) {text : Text}
    (ht : line.lineEnd = [] → text = []) :
    (lexRows source row (x ++ line.lineEnd ++ text).lines).tokens =
      lexLine source row 0 (row > 0) x ++ rowBreak source row (x ++ line.lineEnd) ++
        (lexRows source (row + 1) text.lines).tokens := by
  have hrow : (lexRow source row (x ++ line.lineEnd)).tokens =
      lexLine source row 0 (row > 0) x ++ rowBreak source row (x ++ line.lineEnd) := by
    rw [lexRow_eq (hx.wellFormed_append line), Text.lineContent_append_lineEnd hx.trimmed]
  have hlines : (lexRows source row ((x ++ line.lineEnd) :: text.lines)).tokens =
      (lexRow source row (x ++ line.lineEnd)).tokens ++
        (lexRows source (row + 1) text.lines).tokens := by
    rw [lexRows_cons (hx.wellFormed_append line)]
  rw [← hrow, ← hlines]
  cases Text.lineEnd_eq line with
  | inl he =>
    rw [ht he, he, List.append_nil, List.append_nil]
    by_cases hne : x = []
    · simp [hne, Text.lines, cutAfter, lexRows, lexRow, lexLine, Text.lineContent,
        Text.dropEndWhile, TokenStream.append, TokenStream.empty]
    · rw [Text.lines_of_not_mem hne hx.notBroken]
      rfl
  | inr he =>
    rw [he, List.append_assoc, List.singleton_append, Text.lines_append hx.notBroken]

theorem render_lexRow (hw : line.WellFormed) :
    render (lexRow source row line).tokens = .ok (normalRow source row line) := by
  have hcontent : render (lexLine source row 0 (row > 0) line.lineContent) =
      .ok (written (respace (some false) (lexLine source row 0 (row > 0) line.lineContent))) :=
    render_known fun t ht => ⟨kind_lexLine_ne_eol _ _ _ t ht, (mem_lexLine t ht).1⟩
  rw [lexRow_eq hw, normalRow, rowBreak, Text.lineEnd]
  split
  · simpa using hcontent
  · rw [render_append_break rfl, hcontent]
    rfl

theorem render_lexRows {ls : List Text} (h : Text.AreLines ls) (hw : ∀ l ∈ ls, Text.WellFormed l) :
    render (lexRows source row ls).tokens = .ok (normalRows source row ls) := by
  induction h generalizing row with
  | nil => rfl
  | @last line hne hl =>
    have hline : line.WellFormed := hw line (by simp)
    rw [lexRows_cons hline]
    simpa [lexRows, TokenStream.empty, normalRows] using render_lexRow hline
  | @cons line rest hl hr ih =>
    have hline : line.WellFormed := hw line (by simp)
    have hclosed : Closed (lexRow source row line).tokens := .inr (endsInBreak_lexRow hline hl)
    rw [lexRows_cons hline, render_append_closed hclosed, render_lexRow hline,
      ih fun l hl => hw l (by simp [hl])]
    rfl

/-- A row is read from its normal form as it was, if the rows below it are. -/
theorem reread_row {rest : List Text} (h : Text.AreLines (line :: rest)) (hw : line.WellFormed)
    (hrest : List.Forall₂ Token.Moved (lexRows source (row + 1) rest).tokens
      (lexRows source' (row' + 1) (normalRows source (row + 1) rest).lines).tokens) :
    List.Forall₂ Token.Moved
      (respace (some (decide (row' > 0))) (lexLine source row 0 (row > 0) line.lineContent) ++
        rowBreak source row line ++ (lexRows source (row + 1) rest).tokens)
      (lexRows source' row' (normalRows source row (line :: rest)).lines).tokens := by
  have hcontent : Text.WellFormed line.lineContent := fun c hc =>
    hw c (Text.mem_of_mem_lineContent hc)
  have hx : (written (respace (some false)
      (lexLine source row 0 (row > 0) line.lineContent))).IsLine :=
    isLine_written h.notBroken hcontent _
  have hlast : line.lineEnd = [] → normalRows source (row + 1) rest = [] := by
    intro he
    rw [h.rest_eq_nil he]
    rfl
  rw [normalRows, normalRow, lexRows_append_lineEnd hx hlast]
  exact append_like (append_like (reread_lexLine 0 _ _ 0 _) (rowBreak_append_lineEnd hx.trimmed)) hrest

theorem reread_lexRows {ls : List Text} (h : Text.AreLines ls) (hw : ∀ l ∈ ls, Text.WellFormed l)
    (hrow : 0 < row) (hrow' : 0 < row') :
    List.Forall₂ Token.Moved (lexRows source row ls).tokens
      (lexRows source' row' (normalRows source row ls).lines).tokens := by
  induction ls generalizing row row' with
  | nil => exact .nil
  | cons line rest ih =>
    have hline : line.WellFormed := hw line (by simp)
    have hrest : List.Forall₂ Token.Moved (lexRows source (row + 1) rest).tokens
        (lexRows source' (row' + 1) (normalRows source (row + 1) rest).lines).tokens :=
      ih h.tail (fun l hl => hw l (by simp [hl])) (by omega) (by omega)
    have hstep := reread_row h hline hrest
    rw [decide_eq_true hrow, decide_eq_true hrow', respace_lexLine] at hstep
    rw [lexRows_cons hline, lexRow_eq hline, decide_eq_true hrow]
    exact hstep

/-- Nothing but the space before the first token of a text is unlike that of the rows below. -/
theorem respace_lexRows {rest : List Text} (h : Text.AreLines (line :: rest)) (hw : line.WellFormed) :
    respace (some false) (lexRows source row (line :: rest)).tokens =
      respace (some false) (lexLine source row 0 (row > 0) line.lineContent) ++
        rowBreak source row line ++ (lexRows source (row + 1) rest).tokens := by
  rw [lexRows_cons hw, lexRow_eq hw]
  cases lexLine source row 0 (row > 0) line.lineContent with
  | cons t ts => rfl
  | nil =>
    by_cases he : line.lineContent.length = line.length
    · rw [rowBreak, if_pos he, h.rest_eq_nil (if_pos he)]
      rfl
    · rw [rowBreak, if_neg he]
      rfl

end

/-- A whole text is read from its normal form but for the space before its first token. -/
theorem reread_lexText {source source' : Source} {ls : List Text} (h : Text.AreLines ls)
    (hw : ∀ l ∈ ls, Text.WellFormed l) :
    List.Forall₂ Token.Moved (respace (some false) (lexRows source 0 ls).tokens)
      (lexRows source' 0 (normalRows source 0 ls).lines).tokens := by
  cases ls with
  | nil => exact .nil
  | cons line rest =>
    have hrest : List.Forall₂ Token.Moved (lexRows source (0 + 1) rest).tokens
        (lexRows source' (0 + 1) (normalRows source (0 + 1) rest).lines).tokens :=
      reread_lexRows h.tail (fun l hl => hw l (by simp [hl])) (by decide) (by decide)
    rw [respace_lexRows h (hw line (by simp))]
    exact reread_row h (hw line (by simp)) hrest

theorem wellFormed_normalRows (source : Source) (row : Int) {ls : List Text}
    (h : Text.AreLines ls) (hw : ∀ l ∈ ls, Text.WellFormed l) :
    (normalRows source row ls).WellFormed := by
  induction ls generalizing row with
  | nil => exact fun c hc => absurd hc List.not_mem_nil
  | cons line rest ih =>
    have hline : line.WellFormed := hw line (by simp)
    have hcontent : Text.WellFormed line.lineContent := fun c hc =>
      hline c (Text.mem_of_mem_lineContent hc)
    have hrow : (normalRow source row line).WellFormed :=
      (isLine_written h.notBroken hcontent _).wellFormed_append line
    intro c hc
    cases List.mem_append.mp hc with
    | inl hc => exact hrow c hc
    | inr hc => exact ih (row + 1) h.tail (fun l hl => hw l (by simp [hl])) c hc

/-- Tokens that are written and read again are the same, with the same white
space between them, but for the space before the first. So a second writing
adds nothing to the first. -/
theorem render_normalizes (source source' : Source) (t : Text) (ht : t.WellFormed) :
    ∃ ts text us, (lexText source t).toExcept = .ok ts ∧ render ts = .ok text ∧
      (lexText source' text).toExcept = .ok us ∧
      List.Forall₂ Token.Moved (respace (some false) ts) us ∧ render us = .ok text := by
  have hlines : Text.AreLines t.lines := Text.areLines_lines t
  have hread : (lexText source t).failure = none := lexRows_failure ht.lines
  have hwritten : render (lexText source t).tokens = .ok (normalRows source 0 t.lines) :=
    render_lexRows hlines ht.lines
  have hwell : (normalRows source 0 t.lines).WellFormed := wellFormed_normalRows source 0 hlines ht.lines
  have hreread : (lexText source' (normalRows source 0 t.lines)).failure = none :=
    lexRows_failure hwell.lines
  have hsame : List.Forall₂ Token.Moved (respace (some false) (lexText source t).tokens)
      (lexText source' (normalRows source 0 t.lines)).tokens :=
    reread_lexText hlines ht.lines
  refine ⟨_, _, _, TokenStream.toExcept_eq_ok.mpr ⟨rfl, hread⟩, hwritten,
    TokenStream.toExcept_eq_ok.mpr ⟨rfl, hreread⟩, hsame, ?_⟩
  rw [← render_moved hsame, render_respace, hwritten]

/-- A stray quote of either kind, backslashes, white space in a literal, before a
comment and after it, and carriage returns. -/
def unevenSample : Text := " x\t= \"a  \\ 'b  c' \u3000// d \r\r\n\n\x0b'1.5..2\\\r"

def evenSample : Text := "x = \"a \\ 'b  c' // d\n\n'1.5..2\\\n"

theorem render_normalizes_uneven :
    unevenSample.WellFormed ∧ ∃ ts us, (lexText .text unevenSample).toExcept = .ok ts ∧
      render ts = .ok evenSample ∧ (lexText .text evenSample).toExcept = .ok us ∧
      List.Forall₂ Token.Moved (respace (some false) ts) us ∧ render us = .ok evenSample := by
  have hwell : unevenSample.WellFormed := by decide
  have heven : (lexText .text unevenSample).toExcept >>= render = .ok evenSample := by cbv
  obtain ⟨ts, text, us, hts, htext, hus, hsame, hagain⟩ :=
    render_normalizes .text .text unevenSample hwell
  obtain rfl : text = evenSample := by simpa [hts, htext, bind, Except.bind] using heven
  exact ⟨hwell, ts, us, hts, htext, hus, hsame, hagain⟩

end TextMacros
