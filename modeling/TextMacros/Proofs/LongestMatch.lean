import Mathlib
import TextMacros.Proofs.Escapes
import TextMacros.Proofs.ReadBack
import TextMacros.Proofs.Shrinking
import TextMacros.Proofs.Signatures

/-!
# The longest lexeme

A line is read as lexemes of which none could have been longer. What a
lexeme is can be told from its text alone, and where it ends from what stands
behind it on its line. So the names that may be defined are the texts that
are read as one identifier.
-/

set_option autoImplicit false

namespace TextMacros

/-- ASCII digits, and perhaps a dot behind them, which may have digits behind it. -/
def Text.IsNumber (t : Text) : Prop :=
  ∃ whole fraction : Text, whole ≠ [] ∧ (∀ c ∈ whole, CodePoint.isDigit c) ∧
    (∀ c ∈ fraction, CodePoint.isDigit c) ∧ (t = whole ∨ t = whole ++ CodePoint.dot :: fraction)

/-- The text is read as one token of this kind, and this token has the whole text. -/
def ReadsAs (kind : TokenKind) (text : Text) : Prop :=
  ∀ source, ∃ t, lexText source text = ⟨[t], none⟩ ∧ t.kind = kind ∧ t.text = text

/-- A lexeme that stands for itself and could not go on into `rest`, the rest of its line. -/
structure Longest (kind : TokenKind) (text rest : Text) : Prop where
  alone : ReadsAs kind text
  identifier : kind = .identifier →
    text.isIdentifier ∧ ∀ c ∈ rest.head?, CodePoint.continuesIdentifier c = false
  number : kind = .number → text.IsNumber ∧ ∀ c ∈ rest.head?, ¬Text.IsNumber (text ++ [c])
  slash : kind = .punctuation → text = [CodePoint.slash] → rest.head? ≠ some CodePoint.slash
  quote : kind = .punctuation → ∀ q, q = CodePoint.doubleQuote ∨ q = CodePoint.singleQuote →
    text = [q] → ∀ position, ¬rest.UnescapedAt q position

/-- The tokens of a line without its break, from left to right, with nothing but white space
between them. -/
inductive ReadLongest : Text → List Token → Prop where
  | nil : ReadLongest [] []
  | blank {c : CodePoint} {line : Text} {ts : List Token} (hc : c.isBlank)
      (hts : ReadLongest line ts) : ReadLongest (c :: line) ts
  | token {rest : Text} {t : Token} {ts : List Token} (ht : Longest t.kind t.text rest)
      (hts : ReadLongest rest ts) : ReadLongest (t.text ++ rest) (t :: ts)

/-! ### Runs and numbers -/

namespace Text

theorem run_of_takeWhile_append {p : CodePoint → Bool} {body rest : Text}
    (h : ((body ++ rest).takeWhile p).length = body.length) :
    (∀ c ∈ body, p c) ∧ ∀ c ∈ rest.head?, p c = false := by
  induction body with
  | nil =>
    refine ⟨by simp, fun c hc => ?_⟩
    obtain ⟨rest, rfl⟩ := List.head?_eq_some_iff.mp hc
    rw [List.nil_append, takeWhile_cons_length] at h
    simpa using h
  | cons d body ih =>
    rw [List.cons_append, takeWhile_cons_length] at h
    by_cases hd : p d
    · rw [if_pos hd, List.length_cons] at h
      obtain ⟨hbody, hrest⟩ := ih (by omega)
      exact ⟨by simpa [hd] using hbody, hrest⟩
    · rw [if_neg hd, List.length_cons] at h
      omega

theorem numberLength_eq_length_iff {t : Text} : t.numberLength = t.length ↔
    ∃ whole fraction : Text, (∀ c ∈ whole, CodePoint.isDigit c) ∧
      (∀ c ∈ fraction, CodePoint.isDigit c) ∧
        (t = whole ∨ t = whole ++ CodePoint.dot :: fraction) := by
  constructor
  · intro h
    induction t with
    | nil => exact ⟨[], [], by simp, by simp, .inl rfl⟩
    | cons c t ih =>
      rw [numberLength_cons, List.length_cons] at h
      by_cases hc : c.isDigit
      · rw [if_pos hc] at h
        obtain ⟨whole, fraction, hw, hf, ht⟩ := ih (by omega)
        refine ⟨c :: whole, fraction, by simpa [hc] using hw, hf, ?_⟩
        exact ht.imp (congrArg (c :: ·)) (congrArg (c :: ·))
      · rw [if_neg hc] at h
        by_cases hd : c = CodePoint.dot
        · rw [if_pos hd] at h
          have hrun : t.takeWhile CodePoint.isDigit = t :=
            (List.takeWhile_prefix _).eq_of_length (by omega)
          exact ⟨[], t, by simp, List.takeWhile_eq_self_iff.mp hrun, .inr (by rw [hd]; rfl)⟩
        · rw [if_neg hd] at h
          omega
  · rintro ⟨whole, fraction, hw, hf, ht⟩
    have hrun : fraction.takeWhile CodePoint.isDigit = fraction :=
      List.takeWhile_eq_self_iff.mpr hf
    obtain rfl | rfl := ht
    · induction t with
      | nil => rfl
      | cons c t ih =>
        have hc := hw c (by simp)
        rw [numberLength_cons, if_pos hc, ih fun d hd => hw d (by simp [hd]), List.length_cons]
    · induction whole with
      | nil =>
        rw [List.nil_append, numberLength_cons, if_neg (by decide), if_pos rfl, hrun,
          List.length_cons, Nat.add_comm]
      | cons c whole ih =>
        have hc := hw c (by simp)
        rw [List.cons_append, numberLength_cons, if_pos hc, ih fun d hd => hw d (by simp [hd]),
          List.length_cons]

theorem isNumber_cons_iff {c : CodePoint} {t : Text} :
    IsNumber (c :: t) ↔ c.isDigit ∧ t.numberLength = t.length := by
  rw [numberLength_eq_length_iff]
  constructor
  · rintro ⟨whole, fraction, hne, hw, hf, ht⟩
    obtain ⟨d, whole, rfl⟩ := List.exists_cons_of_ne_nil hne
    obtain ⟨hd, hw⟩ := List.forall_mem_cons.mp hw
    rw [List.cons_append, List.cons.injEq, List.cons.injEq, ← and_or_left] at ht
    exact ⟨ht.1 ▸ hd, whole, fraction, hw, hf, ht.2⟩
  · rintro ⟨hc, whole, fraction, hw, hf, ht⟩
    refine ⟨c :: whole, fraction, by simp, List.forall_mem_cons.mpr ⟨hc, hw⟩, hf, ?_⟩
    exact ht.imp (congrArg (c :: ·)) (congrArg (c :: ·))

/-- What is a number goes on to be one in every longer text. -/
theorem le_numberLength_append {front : Text} (h : front.numberLength = front.length)
    (more : Text) : front.length ≤ (front ++ more).numberLength := by
  induction front with
  | nil => exact Nat.zero_le _
  | cons c front ih =>
    rw [numberLength_cons, List.length_cons] at h
    rw [List.cons_append, numberLength_cons, List.length_cons]
    by_cases hc : c.isDigit
    · rw [if_pos hc] at h ⊢
      have hle := ih (by omega)
      omega
    · rw [if_neg hc] at h ⊢
      by_cases hd : c = CodePoint.dot
      · rw [if_pos hd] at h ⊢
        have hrun : front.takeWhile CodePoint.isDigit = front :=
          (List.takeWhile_prefix _).eq_of_length (by omega)
        rw [List.takeWhile_append_of_pos (List.takeWhile_eq_self_iff.mp hrun), List.length_append]
        omega
      · rw [if_neg hd] at h
        omega

end Text

/-! ### What leads a line -/

section
variable {c : CodePoint} {rest : Text} {n : Nat}

theorem munch_eq_identifier (h : munch c rest = (.identifier, n)) :
    c.startsIdentifier ∧ (rest.takeWhile CodePoint.continuesIdentifier).length = n := by
  unfold munch TokenKind.ofSymbol at h
  grind

theorem munch_eq_number (h : munch c rest = (.number, n)) :
    c.isDigit ∧ rest.numberLength = n := by
  unfold munch TokenKind.ofSymbol at h
  grind

theorem munch_eq_punctuation (h : munch c rest = (.punctuation, n)) :
    n = 0 ∧ ¬(c = CodePoint.slash ∧ rest.head? = some CodePoint.slash) ∧
      (c = CodePoint.doubleQuote ∨ c = CodePoint.singleQuote → rest.closingQuote c = none) := by
  unfold munch TokenKind.ofSymbol at h
  grind

end

namespace Leads
variable {kind : TokenKind} {text rest : Text}

/-- A lexeme ends where it did if nothing follows. -/
theorem alone (h : Leads kind text rest) : Leads kind text [] := by
  obtain ⟨c, body, rfl, hc, hm⟩ := h
  refine ⟨c, body, rfl, hc, ?_⟩
  rw [List.append_nil]
  have hbody : (body ++ rest).take (munch c (body ++ rest)).2 = body := by
    rw [hm, List.take_left]
  by_cases hq : IsStray kind (c :: body)
  · -- A quote that opens nothing before `rest` opens nothing before the end either.
    obtain ⟨rfl, hq⟩ := hq
    obtain ⟨rfl, rfl⟩ | ⟨rfl, rfl⟩ := hq.imp List.cons.inj List.cons.inj <;> rfl
  · rw [← hbody, munch_take (by rwa [hbody, hm]), hbody, hm]

theorem trimmed (h : Leads kind text []) : text.Trimmed := by
  obtain ⟨c, body, rfl, hc, hm⟩ := h
  rw [List.append_nil] at hm
  exact munch_trimmed hc hm

theorem readsAs (h : Leads kind text []) (hb : CodePoint.lineFeed ∉ text)
    (hw : text.WellFormed) : ReadsAs kind text := by
  intro source
  have hline : text.IsLine := ⟨hb, hw, h.trimmed⟩
  have htoken : lexLine source 0 0 false (text ++ []) =
      [⟨kind, text, source.locate 0 (0 : Nat), some false⟩] := by
    rw [lexLine_leads h, lexLine]
  rw [List.append_nil] at htoken
  exact ⟨_, by rw [lexText_isLine hline, htoken], rfl, rfl⟩

theorem identifier (h : Leads .identifier text rest) :
    text.isIdentifier ∧ ∀ c ∈ rest.head?, CodePoint.continuesIdentifier c = false := by
  obtain ⟨c, body, rfl, -, hm⟩ := h
  obtain ⟨hc, hlength⟩ := munch_eq_identifier hm
  obtain ⟨hbody, hrest⟩ := Text.run_of_takeWhile_append hlength
  exact ⟨by simpa [Text.isIdentifier, hc] using hbody, hrest⟩

theorem number (h : Leads .number text rest) :
    text.IsNumber ∧ ∀ c ∈ rest.head?, ¬Text.IsNumber (text ++ [c]) := by
  obtain ⟨c, body, rfl, -, hm⟩ := h
  obtain ⟨hc, hlength⟩ := munch_eq_number hm
  have hbody : Text.numberLength body = body.length := by
    simpa using Text.numberLength_append (Text.OpensLike.of_nil rest) hlength
  refine ⟨Text.isNumber_cons_iff.mpr ⟨hc, hbody⟩, fun d hd hlonger => ?_⟩
  obtain ⟨rest, rfl⟩ := List.head?_eq_some_iff.mp hd
  have hall : Text.numberLength (body ++ [d]) = (body ++ [d]).length :=
    (Text.isNumber_cons_iff.mp hlonger).2
  have hle := Text.le_numberLength_append hall rest
  rw [List.append_assoc, List.singleton_append, hlength, List.length_append] at hle
  simp at hle

theorem punctuation (h : Leads .punctuation text rest) : ∃ c, text = [c] ∧
    ¬(c = CodePoint.slash ∧ rest.head? = some CodePoint.slash) ∧
      (c = CodePoint.doubleQuote ∨ c = CodePoint.singleQuote → rest.closingQuote c = none) := by
  obtain ⟨c, body, rfl, -, hm⟩ := h
  obtain ⟨hlength, hslash, hquote⟩ := munch_eq_punctuation hm
  obtain rfl := List.length_eq_zero_iff.mp hlength
  exact ⟨c, rfl, hslash, hquote⟩

theorem longest (h : Leads kind text rest) (hb : CodePoint.lineFeed ∉ text)
    (hw : text.WellFormed) : Longest kind text rest where
  alone := h.alone.readsAs hb hw
  identifier hk := (hk ▸ h).identifier
  number hk := (hk ▸ h).number
  slash hk ht hr := by
    obtain ⟨c, rfl, hslash, -⟩ := (hk ▸ h).punctuation
    exact hslash ⟨List.singleton_inj.mp ht, hr⟩
  quote hk q hq ht := by
    obtain ⟨c, rfl, -, hquote⟩ := (hk ▸ h).punctuation
    obtain rfl := List.singleton_inj.mp ht
    refine (Text.closingQuote_eq_none_iff ?_).mp (hquote hq)
    obtain rfl | rfl := hq <;> decide

end Leads

/-! ### Lines and texts -/

section
variable {source : Source}

theorem readLongest_lexLine {row : Int} {col : Nat} {spaced : Bool} {line : Text}
    (hb : CodePoint.lineFeed ∉ line) (hw : line.WellFormed) :
    ReadLongest line (lexLine source row col spaced line) := by
  induction col, spaced, line using lexLine.induct with
  | case1 col spaced =>
    rw [lexLine]
    exact .nil
  | case2 col spaced c rest hc ih =>
    rw [lexLine, if_pos hc]
    exact .blank hc (ih (fun h => hb (by simp [h])) fun d hd => hw d (by simp [hd]))
  | case3 col spaced c rest hc lexeme ih =>
    rw [lexLine, if_neg hc]
    let t : Token := ⟨lexeme.1, c :: rest.take lexeme.2, source.locate row col, some spaced⟩
    have hsplit : t.text ++ rest.drop lexeme.2 = c :: rest :=
      congrArg (c :: ·) (List.take_append_drop ..)
    have hleads : Leads t.kind t.text (rest.drop lexeme.2) := by
      refine ⟨c, _, rfl, by simpa using hc, ?_⟩
      rw [List.take_append_drop, length_take_munch]
    rw [← hsplit, List.mem_append, not_or] at hb
    rw [← hsplit, Text.WellFormed, List.forall_mem_append] at hw
    exact hsplit ▸ .token (hleads.longest hb.1 hw.1) (ih hb.2 hw.2)

/-- The line break is no lexeme. -/
theorem filter_lexRow {row : Int} {line : Text} (hw : line.WellFormed) :
    (lexRow source row line).tokens.filter (fun t => t.kind ≠ .eol) =
      lexLine source row 0 (row > 0) line.lineContent := by
  rw [lexRow_eq hw, List.filter_append]
  have hline : ∀ t ∈ lexLine source row 0 (row > 0) line.lineContent, t.kind ≠ .eol :=
    kind_lexLine_ne_eol _ _ _
  have hbreak : ∀ t ∈ rowBreak source row line, t.kind = .eol := kind_rowBreak
  rw [List.filter_eq_self.mpr (by simpa using hline),
    List.filter_eq_nil_iff.mpr (by simpa using hbreak), List.append_nil]

theorem readLongest_lexRows (row : Int) {ls : List Text} (h : Text.AreLines ls)
    (hw : ∀ l ∈ ls, Text.WellFormed l) : ∃ rows : List (List Token),
    lexRows source row ls = ⟨rows.flatten, none⟩ ∧
      List.Forall₂ (fun line tokens =>
        ReadLongest line.lineContent (tokens.filter fun t => t.kind ≠ .eol)) ls rows := by
  induction ls generalizing row with
  | nil => exact ⟨[], rfl, .nil⟩
  | cons line ls ih =>
    obtain ⟨hl, hls⟩ := List.forall_mem_cons.mp hw
    obtain ⟨rows, hrows, hread⟩ := ih (row + 1) h.tail hls
    refine ⟨(lexRow source row line).tokens :: rows, ?_, .cons ?_ hread⟩
    · rw [lexRows_cons hl, hrows, List.flatten_cons]
    · rw [filter_lexRow hl]
      exact readLongest_lexLine h.notBroken fun c hc => hl c (Text.mem_of_mem_lineContent hc)

end

/-- Every text is read, line by line, as lexemes that could not be longer; and the texts that are
read as one identifier and nothing else are those that may be names. -/
theorem lexText_longest (source : Source) {t : Text} (ht : t.WellFormed) (s : Text) :
    (∃ rows : List (List Token), lexText source t = ⟨rows.flatten, none⟩ ∧
      List.Forall₂ (fun line tokens =>
        ReadLongest line.lineContent (tokens.filter fun t => t.kind ≠ .eol)) t.lines rows) ∧
    (s.isIdentifier ↔
      ∃ token, lexText source s = ⟨[token], none⟩ ∧ token.kind = .identifier ∧ token.text = s) := by
  refine ⟨readLongest_lexRows 0 (Text.areLines_lines t) ht.lines, fun h => ?_, ?_⟩
  · have hinline := Text.inline_of_isIdentifier h
    have hleads : Leads .identifier s [] := leads_identifier h (by simp)
    have hbreak : CodePoint.lineFeed ∉ s := fun hs => absurd (hinline _ hs).2 (by decide)
    exact hleads.readsAs hbreak (fun c hc => (hinline c hc).1) source
  · rintro ⟨token, htokens, hk, rfl⟩
    have hmem : token ∈ (lexText source token.text).tokens := by simp [htokens]
    have hstray : ¬IsStray token.kind token.text := fun hq => by simp [hq.1] at hk
    have hlexical := (writable_lexText source _ token hmem hstray).lexical (by simp [hk])
    exact (hk ▸ hlexical.leads).identifier.1

/-- Two quotes that open nothing, as the backslash takes the second one away from the first. -/
def crowdedSample : Text := "a1+1.2.3\"\\\"'c'/ // \u00e9 \r\n_x"

def crowdedWords : List (TokenKind × Text) :=
  [(.identifier, "a1"), (.punctuation, "+"), (.number, "1.2"), (.punctuation, "."), (.number, "3"),
    (.punctuation, "\""), (.punctuation, "\\"), (.punctuation, "\""), (.character, "'c'"),
    (.punctuation, "/"), (.comment, "// \u00e9"), (.eol, "\n"), (.identifier, "_x")]

theorem lexText_longest_crowded : crowdedSample.WellFormed ∧
    (∃ first second, lexText .text crowdedSample = ⟨first ++ second, none⟩ ∧
      (first ++ second).map Token.word = crowdedWords ∧
      ReadLongest "a1+1.2.3\"\\\"'c'/ // \u00e9 " (first.filter fun t => t.kind ≠ .eol) ∧
      ReadLongest "_x" (second.filter fun t => t.kind ≠ .eol)) ∧
    (Text.isIdentifier "_x" ↔ ∃ token, lexText .text "_x" = ⟨[token], none⟩ ∧
      token.kind = .identifier ∧ token.text = "_x") := by
  have hw : crowdedSample.WellFormed := by decide
  have hlines : crowdedSample.lines =
      [Text.ofString "a1+1.2.3\"\\\"'c'/ // \u00e9 \r\n", Text.ofString "_x"] := by cbv
  have hwords : (lexText .text crowdedSample).tokens.map Token.word = crowdedWords := by cbv
  obtain ⟨⟨rows, hrows, hread⟩, hname⟩ := lexText_longest .text hw "_x"
  rw [hlines] at hread
  obtain ⟨first, rest, hfirst, hrest, rfl⟩ := List.forall₂_cons_left_iff.mp hread
  obtain ⟨second, rest, hsecond, hnil, rfl⟩ := List.forall₂_cons_left_iff.mp hrest
  cases hnil
  rw [show [first, second].flatten = first ++ second by simp] at hrows
  rw [hrows] at hwords
  exact ⟨hw, ⟨first, second, hrows, hwords, hfirst, hsecond⟩, hname⟩

end TextMacros
