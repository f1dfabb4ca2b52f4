import Mathlib
import TextMacros.Proofs.Cursors
import TextMacros.Proofs.Words

/-!
# Texts that cannot be read

Nothing but a surrogate keeps a text from being read to its end, and the
first one does. Its row yields nothing, for a row is checked as a whole before
its first token, but the rows above it are read as they would be without it.
-/

set_option autoImplicit false

namespace TextMacros

/-! ### Surrogates and rows -/

namespace Text

/-- The whole rows of a text, each with its line feed. What follows the last line feed is left out. -/
def wholeRows (t : Text) : Text := t.dropEndWhile (· ≠ CodePoint.lineFeed)

theorem findIdx?_surrogate_eq_none {t : Text} :
    t.findIdx? CodePoint.isSurrogate = none ↔ t.WellFormed :=
  List.findIdx?_eq_none_iff

theorem findIdx?_surrogate_lineContent (line : Text) :
    line.lineContent.findIdx? CodePoint.isSurrogate = line.findIdx? CodePoint.isSurrogate := by
  have hsplit : line.lineContent ++ line.rtakeWhile isBreak = line :=
    List.rdropWhile_append_rtakeWhile
  have hbreaks : (line.rtakeWhile isBreak).findIdx? CodePoint.isSurrogate = none := by
    rw [List.findIdx?_eq_none_iff]
    exact fun c hc => not_surrogate_of_isBreak (List.mem_rtakeWhile_imp hc)
  conv_rhs => rw [← hsplit, List.findIdx?_append, hbreaks]
  simp

theorem wholeRows_of_not_mem {t : Text} (h : CodePoint.lineFeed ∉ t) : t.wholeRows = [] := by
  refine List.rdropWhile_eq_nil_iff.mpr fun c hc => ?_
  simpa using fun (e : c = CodePoint.lineFeed) => h (e ▸ hc)

theorem wholeRows_append {line : Text} (h : line.Terminated) (t : Text) :
    wholeRows (line ++ t) = line ++ wholeRows t := by
  obtain ⟨front, -, rfl⟩ := h
  simp only [wholeRows, dropEndWhile, List.reverse_append, List.dropWhile_append]
  split
  · next hnil => rw [List.isEmpty_iff.mp hnil]; simp
  · simp

theorem wholeRows_prefix (t : Text) : t.wholeRows <+: t := List.rdropWhile_prefix _ t

theorem lines_terminated {line : Text} (h : line.Terminated) (t : Text) :
    lines (line ++ t) = line :: lines t := by
  obtain ⟨front, hf, rfl⟩ := h
  rw [List.append_assoc]
  exact lines_append hf t

/-- A line feed is the last code point of its line. -/
theorem AreLines.not_mem_take {line : Text} {rest : List Text} (h : AreLines (line :: rest))
    {col : Nat} (hcol : col < line.length) : CodePoint.lineFeed ∉ line.take col := by
  cases h with
  | last hne hl => exact fun hm => hl (List.mem_of_mem_take hm)
  | cons hl hr =>
    obtain ⟨front, hf, rfl⟩ := hl
    have hle : col ≤ front.length := by simpa [Nat.lt_succ_iff] using hcol
    rw [List.take_append_of_le_length hle]
    exact fun hm => hf (List.mem_of_mem_take hm)

theorem Terminated.count {line : Text} (h : line.Terminated) :
    line.count CodePoint.lineFeed = 1 := by
  obtain ⟨front, hf, rfl⟩ := h
  rw [List.count_append, List.count_eq_zero.mpr hf]
  rfl

/-- All that stands before the first surrogate is well-formed. -/
theorem wellFormed_take {t : Text} {i : Nat} (h : t.findIdx? CodePoint.isSurrogate = some i) :
    WellFormed (t.take i) := by
  obtain ⟨hlt, -, hbefore⟩ := List.findIdx?_eq_some_iff_getElem.mp h
  intro c hc
  obtain ⟨j, hj, rfl⟩ := List.mem_take_iff_getElem.mp hc
  simpa using hbefore j (by omega)

end Text

/-! ### Where reading fails -/

theorem lexRows_malformed {source : Source} {row : Int} {line : Text} {col : Nat}
    (h : line.findIdx? CodePoint.isSurrogate = some col) (rest : List Text) :
    lexRows source row (line :: rest) = ⟨[], some (surrogateFailure source row col)⟩ := by
  rw [← Text.findIdx?_surrogate_lineContent] at h
  simp only [lexRows, lexRow, h]
  rfl

/-- The rows above the first surrogate are read, and its own row fails at it. -/
theorem lexRows_surrogate (source : Source) (row : Int) {ls : List Text} (h : Text.AreLines ls)
    {i : Nat} (hi : ls.flatten.findIdx? CodePoint.isSurrogate = some i) :
    lexRows source row ls =
      ⟨(lexRows source row (Text.wholeRows (ls.flatten.take i)).lines).tokens,
        some (surrogateFailure source (row + (ls.flatten.take i).count CodePoint.lineFeed)
          (i - (Text.wholeRows (ls.flatten.take i)).length))⟩ := by
  induction ls generalizing row i with
  | nil => simp at hi
  | cons line rest ih =>
    rw [List.flatten_cons, List.findIdx?_append] at hi
    rw [List.flatten_cons]
    cases hline : line.findIdx? CodePoint.isSurrogate with
    | some col =>
      -- The surrogate stands in the first row, and there is no row above it.
      obtain rfl : col = i := by simpa [hline] using hi
      obtain ⟨hlt, -⟩ := List.findIdx?_eq_some_iff_getElem.mp hline
      have hbreak : CodePoint.lineFeed ∉ line.take col := h.not_mem_take hlt
      rw [List.take_append_of_le_length (Nat.le_of_lt hlt), Text.wholeRows_of_not_mem hbreak,
        List.count_eq_zero.mpr hbreak, lexRows_malformed hline]
      simp [Text.lines, cutAfter, lexRows, TokenStream.empty]
    | none =>
      -- The first row is read, and as something follows it, it is a whole one.
      have hw : line.WellFormed := Text.findIdx?_surrogate_eq_none.mp hline
      obtain ⟨k, hk, rfl⟩ : ∃ k, rest.flatten.findIdx? CodePoint.isSurrogate = some k ∧
          line.length + k = i := by
        simpa [hline, Nat.add_comm] using hi
      have hterminated : line.Terminated := by
        have hrest : rest ≠ [] := by rintro rfl; simp at hk
        have happend : Text.AreLines ([line] ++ rest) := h
        exact happend.of_append.2.2 hrest line (by simp)
      rw [List.take_length_add_append, Text.wholeRows_append hterminated,
        Text.lines_terminated hterminated, List.count_append, hterminated.count, Nat.cast_add,
        Nat.cast_one, ← add_assoc, lexRows_cons hw, lexRows_cons hw, ih _ h.tail hk,
        List.length_append, Nat.add_sub_add_left]

theorem lexText_failure_eq_none {source : Source} {t : Text} :
    (lexText source t).failure = none ↔ t.WellFormed := by
  refine ⟨fun h c hc => ?_, fun h => lexRows_failure h.lines⟩
  rw [← t.flatten_lines] at hc
  obtain ⟨line, hl, hm⟩ := List.mem_flatten.mp hc
  exact lexRows_wellFormed h line hl c hm

/-! ### Draining -/

/-- Rows drained from a row on. Each of them is checked before a cursor reads it, and a row that
fails the check is the last one. -/
inductive Drains (source : Source) : Int → List Text → TokenStream → Prop where
  | done {row : Int} : Drains source row [] .empty
  | malformed {row : Int} {line : Text} {rest : List Text} {col : Nat}
      (h : line.lineContent.findIdx? CodePoint.isSurrogate = some col) :
      Drains source row (line :: rest) ⟨[], some (.malformedText
        (Cursor.location ⟨source, row, line.lineContent, col⟩) "surrogates not allowed")⟩
  | row {row : Int} {line : Text} {rest : List Text} {ts : List Token} {stop : Cursor}
      {below : TokenStream} (h : line.lineContent.findIdx? CodePoint.isSurrogate = none)
      (hts : Cursor.Reads (Cursor.nextWord ⟨source, row, line.lineContent, 0⟩ 0) ts stop)
      (hbelow : Drains source (row + 1) rest below) :
      Drains source row (line :: rest) ⟨ts ++ (if line.lineContent.length = line.length then []
        else [⟨.eol, [CodePoint.lineFeed], stop.location, some false⟩]) ++ below.tokens,
        below.failure⟩

/-- Rows can be drained in one way only. -/
theorem drains_iff {source : Source} {row : Int} {ls : List Text} {s : TokenStream} :
    Drains source row ls s ↔ s = lexRows source row ls := by
  constructor
  · intro h
    induction h with
    | done => rfl
    | malformed h =>
      rw [Text.findIdx?_surrogate_lineContent] at h
      rw [lexRows_malformed h]
      rfl
    | row h hts hbelow ih =>
      obtain ⟨rfl, rfl⟩ := hts.unique (Cursor.reads_line _ _ _)
      rw [Text.findIdx?_surrogate_lineContent, Text.findIdx?_surrogate_eq_none] at h
      rw [lexRows_cons h, lexRow_eq h, ← ih]
      rfl
  · rintro rfl
    induction ls generalizing row with
    | nil => exact .done
    | cons line rest ih =>
      cases h : line.findIdx? CodePoint.isSurrogate with
      | some col =>
        rw [lexRows_malformed h]
        rw [← Text.findIdx?_surrogate_lineContent] at h
        exact .malformed h
      | none =>
        have hw : line.WellFormed := Text.findIdx?_surrogate_eq_none.mp h
        rw [← Text.findIdx?_surrogate_lineContent] at h
        rw [lexRows_cons hw, lexRow_eq hw]
        exact .row h (Cursor.reads_line _ _ _) ih

/-- No step of draining a text can be a misuse, and a text fails to be read only at a surrogate:
at the row and the column of the first one, once the whole rows above it are read as they are
without the rest. -/
theorem lexText_surrogate {source : Source} (hs : source ≠ .commandLine) (t : Text) :
    (∀ s, Drains source 0 t.lines s ↔ s = lexText source t) ∧
    ((lexText source t).failure ≠ none ↔ ∃ c ∈ t, CodePoint.isSurrogate c) ∧
    ∀ i, t.findIdx? CodePoint.isSurrogate = some i →
      (lexText source (Text.wholeRows (t.take i))).failure = none ∧
      ∃ col : Nat, (Text.wholeRows (t.take i)).length + col = i ∧
        lexText source t = ⟨(lexText source (Text.wholeRows (t.take i))).tokens,
          some (.malformedText ⟨(t.take i).count CodePoint.lineFeed, col, source⟩
            "surrogates not allowed")⟩ := by
  refine ⟨fun s => drains_iff, ?_, fun i hi => ⟨?_, ?_⟩⟩
  · rw [Ne, lexText_failure_eq_none, Text.WellFormed]
    simp
  · rw [lexText_failure_eq_none]
    exact fun c hc => Text.wellFormed_take hi c ((Text.wholeRows_prefix _).subset hc)
  · have hle := (Text.wholeRows_prefix (t.take i)).length_le
    have hlength := List.length_take_le i t
    refine ⟨i - (Text.wholeRows (t.take i)).length, by omega, ?_⟩
    rw [← t.flatten_lines] at hi
    have hrows := lexRows_surrogate source 0 t.areLines_lines hi
    rw [t.flatten_lines, surrogateFailure, Source.locate_eq hs, Int.zero_add] at hrows
    exact hrows

/-- A quote that opens nothing and a backslash at the end of the first row, a number that ends in
a dot, and two surrogates, the second one on a row of its own. -/
def malformedSample : Text := "'\\\n// 7.\r\n \"7." ++ [0xDC80, CodePoint.lineFeed, 0xD800]

theorem lexText_surrogate_third_row : Source.text ≠ .commandLine ∧
    malformedSample.findIdx? CodePoint.isSurrogate = some 14 ∧
    Drains .text 0 malformedSample.lines (lexText .text malformedSample) ∧
    (lexText .text malformedSample).tokens.map Token.word = [(.punctuation, Text.ofString "'"),
      (.punctuation, Text.ofString "\\"), (.eol, Text.ofString "\n"),
      (.comment, Text.ofString "// 7."), (.eol, Text.ofString "\n")] ∧
    (lexText .text malformedSample).failure =
      some (.malformedText ⟨2, 4, .text⟩ "surrogates not allowed") := by
  have hs : Source.text ≠ .commandLine := by decide
  have hfirst : malformedSample.findIdx? CodePoint.isSurrogate = some 14 := by decide
  have habove : Text.wholeRows (malformedSample.take 14) = Text.ofString "'\\\n// 7.\r\n" := by cbv
  have hcount : (malformedSample.take 14).count CodePoint.lineFeed = 2 := by decide
  obtain ⟨hdrains, -, hfails⟩ := lexText_surrogate hs malformedSample
  obtain ⟨-, col, hcol, htext⟩ := hfails 14 hfirst
  rw [habove] at hcol htext
  obtain rfl : col = 4 := Nat.add_left_cancel hcol
  rw [hcount] at htext
  refine ⟨hs, hfirst, (hdrains _).mpr rfl, ?_, ?_⟩
  · rw [htext]
    cbv
  · rw [htext]
    rfl

end TextMacros
