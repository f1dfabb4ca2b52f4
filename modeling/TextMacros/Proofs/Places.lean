import Mathlib
import TextMacros.Proofs.Rows
import TextMacros.Proofs.Shrinking

/-!
# Where tokens stand

A text is read without loss. Each token stands in its row at its column, the
tokens of a row do not overlap, and all between them is white space. Whether
a token is spaced is told by the code point before its column.
-/

set_option autoImplicit false

namespace TextMacros

/-- Whether white space stands before a column. Before the first column of a
row stands the line break of the row above, if there is one. -/
def Text.blankBefore (row : Int) (content : Text) : (col : Nat) → Bool
  | 0 => row > 0
  | col + 1 => content[col]?.any CodePoint.isBlank

namespace Token

/-- The column after the last code point. -/
def stop (t : Token) : Int := t.location.col + t.text.length

structure StandsAt (source : Source) (row : Int) (content : Text) (t : Token) (col : Nat) :
    Prop where
  location : t.location = ⟨row, col, source⟩
  text : (content.drop col).take t.text.length = t.text
  ne_nil : t.text ≠ []
  trimmed : t.text.Trimmed
  spaced : t.spaced = some (content.blankBefore row col)
  ne_eol : t.kind ≠ .eol

end Token

/-- The tokens of a line without its break, from a column on, with white space before each of them
and after the last one. -/
inductive Covers (source : Source) (row : Int) (content : Text) : Nat → List Token → Prop where
  | done {col : Nat} (hgap : ∀ i c, col ≤ i → content[i]? = some c → CodePoint.isBlank c) :
      Covers source row content col []
  | token {col place : Nat} {t : Token} {ts : List Token} (hle : col ≤ place)
      (hgap : ∀ i c, col ≤ i → i < place → content[i]? = some c → CodePoint.isBlank c)
      (ht : t.StandsAt source row content place)
      (hts : Covers source row content (place + t.text.length) ts) :
      Covers source row content col (t :: ts)

/-- Only what comes from the command line has no position of its own. -/
theorem Source.locate_eq {source : Source} (hs : source ≠ .commandLine) (row col : Int) :
    source.locate row col = ⟨row, col, source⟩ := by
  cases source with
  | commandLine => exact absurd rfl hs
  | text | definition => rfl

/-- What the tokens of a row are to the content of its line. -/
structure Faithful (source : Source) (row : Int) (content : Text) (ts : List Token) : Prop where
  stands : ∀ t ∈ ts, ∃ col, t.StandsAt source row content col
  ordered : ts.Pairwise fun t u => t.location.col < u.location.col ∧ t.stop ≤ u.location.col
  covered : ∀ (i : Nat) (c : CodePoint), content[i]? = some c →
    (∀ t ∈ ts, ¬(t.location.col ≤ i ∧ i < t.stop)) → c.isBlank
  touching : ts.IsChain fun t u => u.spaced = some true ↔ u.location.col ≠ t.stop

section
variable {source : Source} {row : Int} {content : Text} {col : Nat}

theorem Text.blankBefore_of_trimmed {text : Text} (hne : text ≠ []) (ht : text.Trimmed)
    (htext : (content.drop col).take text.length = text) (row : Int) :
    content.blankBefore row (col + text.length) = false := by
  obtain ⟨front, last, rfl⟩ : ∃ front last, text = front ++ [last] :=
    ⟨_, _, (List.dropLast_concat_getLast hne).symm⟩
  have hblank : CodePoint.isBlank last = false := by simpa using trimmed_iff.mp ht hne
  have hat : content[col + front.length]? = some last := by
    have hin : front.length < (front ++ [last]).length := by simp
    rw [← List.getElem?_drop, ← List.getElem?_take_of_lt hin, htext]
    simp
  rw [List.length_append, List.length_singleton, ← Nat.add_assoc]
  simp [blankBefore, hat, hblank]

theorem Text.blankBefore_stop {t : Token} (h : t.StandsAt source row content col) :
    content.blankBefore row (col + t.text.length) = false :=
  blankBefore_of_trimmed h.ne_nil h.trimmed h.text row

namespace Text
variable {c : CodePoint} {rest : Text}

theorem length_of_drop (h : content.drop col = c :: rest) :
    content.length = col + 1 + rest.length := by
  have hlength := congrArg List.length h
  simp only [List.length_drop, List.length_cons] at hlength
  omega

theorem drop_of_drop (h : content.drop col = c :: rest) (n : Nat) :
    content.drop (col + 1 + n) = rest.drop n := by
  rw [← List.drop_drop, ← List.drop_drop, h]
  rfl

theorem blankBefore_munch (h : content.drop col = c :: rest) (hc : c.isBlank = false) (row : Int) :
    content.blankBefore row (col + 1 + (munch c rest).2) = false := by
  have hlength : (c :: rest.take (munch c rest).2).length = (munch c rest).2 + 1 := by
    rw [List.length_cons, length_take_munch]
  rw [Nat.add_assoc, Nat.add_comm 1, ← hlength]
  refine blankBefore_of_trimmed (by simp) (trimmed_munch hc) ?_ row
  rw [h, hlength, List.take_succ_cons]

end Text

namespace Covers

theorem of_blank {c : CodePoint} {ts : List Token} (hc : content[col]? = some c) (hb : c.isBlank)
    (h : Covers source row content (col + 1) ts) : Covers source row content col ts := by
  cases h with
  | done hgap =>
    refine .done fun i d hi hd => ?_
    rcases Nat.eq_or_lt_of_le hi with rfl | hi
    · rwa [Option.some.inj (hd.symm.trans hc)]
    · exact hgap i d hi hd
  | token hle hgap ht hts =>
    refine .token (by omega) (fun i d hi hp hd => ?_) ht hts
    rcases Nat.eq_or_lt_of_le hi with rfl | hi
    · rwa [Option.some.inj (hd.symm.trans hc)]
    · exact hgap i d hi hp hd

theorem le_col {ts : List Token} (h : Covers source row content col ts) :
    ∀ t ∈ ts, (col : Int) ≤ t.location.col := by
  induction h with
  | done => simp
  | @token col place t ts hle hgap ht hts ih =>
    intro u hu
    cases hu with
    | head => rw [ht.location]; exact Int.ofNat_le.mpr hle
    | tail _ hu =>
      have hnext := ih u hu
      omega

theorem stands {ts : List Token} (h : Covers source row content col ts) :
    ∀ t ∈ ts, ∃ place, t.StandsAt source row content place := by
  induction h with
  | done => simp
  | token hle hgap ht hts ih => simpa using ⟨⟨_, ht⟩, ih⟩

theorem ordered {ts : List Token} (h : Covers source row content col ts) :
    ts.Pairwise fun t u => t.location.col < u.location.col ∧ t.stop ≤ u.location.col := by
  induction h with
  | done => exact .nil
  | @token col place t ts hle hgap ht hts ih =>
    refine .cons (fun u hu => ?_) ih
    have hnext := hts.le_col u hu
    have hlength : 0 < t.text.length := List.length_pos_iff.mpr ht.ne_nil
    simp only [Token.stop, ht.location]
    omega

/-- A code point that no token covers stands in one of the gaps. -/
theorem covered {ts : List Token} (h : Covers source row content col ts) {i : Nat} {c : CodePoint}
    (hi : col ≤ i) (hc : content[i]? = some c)
    (hts : ∀ t ∈ ts, ¬(t.location.col ≤ i ∧ i < t.stop)) : c.isBlank := by
  induction h with
  | done hgap => exact hgap i c hi hc
  | @token col place t ts hle hgap ht _ ih =>
    have hout := hts t List.mem_cons_self
    simp only [Token.stop, ht.location] at hout
    by_cases hp : i < place
    · exact hgap i c hi hp hc
    · exact ih (by omega) fun u hu => hts u (List.mem_cons_of_mem _ hu)

theorem touching {ts : List Token} (h : Covers source row content col ts) :
    ts.IsChain fun t u => u.spaced = some true ↔ u.location.col ≠ t.stop := by
  induction h with
  | done => exact List.isChain_nil
  | @token col place t ts hle hgap ht hts ih =>
    apply ih.cons
    intro v hv
    cases hts with
    | done => simp at hv
    | @token _ next u us hle hgap hu hus =>
      obtain rfl := Option.some.inj hv
      simp only [Token.stop, ht.location, hu.location, hu.spaced, Option.some.injEq]
      rcases Nat.eq_or_lt_of_le hle with rfl | hlt
      · simp [Text.blankBefore_stop ht]
      · -- The code point before the token belongs to the gap.
        obtain ⟨before, rfl⟩ : ∃ before, next = before + 1 := ⟨next - 1, by omega⟩
        have hin : before + 1 < content.length := by
          have hlength := congrArg List.length hu.text
          have hpos : 0 < u.text.length := List.length_pos_iff.mpr hu.ne_nil
          simp only [List.length_take, List.length_drop] at hlength
          omega
        have hat : content[before]? = some content[before] := List.getElem?_eq_getElem (by omega)
        have hblank := hgap before _ (by omega) (by omega) hat
        simp [Text.blankBefore, hat, hblank]
        omega

theorem faithful {ts : List Token} (h : Covers source row content 0 ts) :
    Faithful source row content ts where
  stands := h.stands
  ordered := h.ordered
  covered := fun _ _ hc => h.covered (Nat.zero_le _) hc
  touching := h.touching

end Covers

theorem covers_lexLine (hs : source ≠ .commandLine) (spaced : Bool) {rest : Text}
    (hdrop : content.drop col = rest) (hspaced : content.blankBefore row col = spaced) :
    Covers source row content col (lexLine source row col spaced rest) := by
  induction col, spaced, rest using lexLine.induct with
  | case1 col spaced =>
    rw [lexLine]
    refine .done fun i c hi hc => ?_
    have hlen := List.drop_eq_nil_iff.mp hdrop
    rw [List.getElem?_eq_none (by omega)] at hc
    cases hc
  | case2 col spaced c rest hc ih =>
    have hat : content[col]? = some c := by
      rw [← List.head?_drop, hdrop]
      rfl
    rw [lexLine, if_pos hc]
    exact .of_blank hat hc (ih (Text.drop_of_drop hdrop 0) (by simp [Text.blankBefore, hat, hc]))
  | case3 col spaced c rest hc lexeme ih =>
    rw [lexLine, if_neg hc]
    have hlength : (c :: rest.take (munch c rest).2).length = 1 + (munch c rest).2 := by
      rw [List.length_cons, length_take_munch, Nat.add_comm]
    have ht : Token.StandsAt source row content ⟨(munch c rest).1, c :: rest.take (munch c rest).2,
        source.locate row col, some spaced⟩ col := by
      constructor
      case location => exact Source.locate_eq hs row col
      case text => rw [hdrop, hlength, Nat.add_comm, List.take_succ_cons]
      case ne_nil => simp
      case trimmed => exact trimmed_munch (by simpa using hc)
      case spaced => rw [hspaced]
      case ne_eol => exact kind_munch_ne_eol c rest
    refine .token (Nat.le_refl _) (fun i d hi hp => by omega) ht ?_
    have hnext : col + (c :: rest.take (munch c rest).2).length = col + 1 + (munch c rest).2 := by
      rw [hlength, Nat.add_assoc]
    rw [hnext]
    exact ih (Text.drop_of_drop hdrop _) (Text.blankBefore_munch hdrop (by simpa using hc) row)

/-- The tokens of a row with its line break, which closes the row exactly if
something was stripped at the end of the line. -/
def ReadsRow (source : Source) (row : Int) (line : Text) (tokens : List Token) : Prop :=
  ∃ ts, Faithful source row line.lineContent ts ∧
    tokens = ts ++ if line.lineContent = line then [] else
      [⟨.eol, [CodePoint.lineFeed], ⟨row, line.lineContent.length, source⟩, some false⟩]

theorem readsRow_lexRow (hs : source ≠ .commandLine) {line : Text} (hw : line.WellFormed) :
    ReadsRow source row line (lexRow source row line).tokens := by
  refine ⟨lexLine source row 0 (row > 0) line.lineContent,
    (covers_lexLine hs _ ?_ rfl).faithful, ?_⟩
  · exact List.drop_zero
  · have hself : line.lineContent = line ↔ line.lineContent.length = line.length :=
      ⟨congrArg _, (List.rdropWhile_prefix _ line).eq_of_length⟩
    simp only [lexRow_eq hw, rowBreak, hself, breakToken, Source.locate_eq hs]

theorem readsRow_lexRows (hs : source ≠ .commandLine) (row : Int) {ls : List Text}
    (hw : ∀ l ∈ ls, Text.WellFormed l) :
    ∃ rows : List (List Token), lexRows source row ls = ⟨rows.flatten, none⟩ ∧
      rows.length = ls.length ∧
      ∀ (i : Nat) (line : Text) (tokens : List Token), ls[i]? = some line →
        rows[i]? = some tokens → ReadsRow source (row + i) line tokens := by
  induction ls generalizing row with
  | nil => exact ⟨[], rfl, rfl, by simp⟩
  | cons line ls ih =>
    have hl := hw line (by simp)
    obtain ⟨rows, hrows, hlength, hread⟩ := ih (row + 1) fun l hl => hw l (by simp [hl])
    refine ⟨(lexRow source row line).tokens :: rows, ?_, by simp [hlength], ?_⟩
    · rw [lexRows_cons hl, hrows, List.flatten_cons]
    · intro i line' tokens hline htokens
      cases i with
      | zero =>
        obtain rfl := Option.some.inj hline
        obtain rfl := Option.some.inj htokens
        simpa using readsRow_lexRow hs hl
      | succ i =>
        have hrow : row + ((i + 1 : Nat) : Int) = row + 1 + i := by omega
        rw [hrow]
        exact hread i line' tokens hline htokens

end

/-- Each line of a text is read without loss, in the order of the lines. -/
theorem lexText_faithful {source : Source} (hs : source ≠ .commandLine) {t : Text}
    (ht : t.WellFormed) :
    ∃ rows : List (List Token), lexText source t = ⟨rows.flatten, none⟩ ∧
      rows.length = t.lines.length ∧
      ∀ (row : Nat) (line : Text) (tokens : List Token), t.lines[row]? = some line →
        rows[row]? = some tokens → ReadsRow source row line tokens := by
  obtain ⟨rows, hrows, hlength, hread⟩ := readsRow_lexRows hs 0 ht.lines
  refine ⟨rows, hrows, hlength, fun row line tokens hline htokens => ?_⟩
  simpa using hread row line tokens hline htokens

/-- White space and carriage returns after a comment, and a quote that opens nothing. -/
def spreadSample : Text := " a+12.// b \r\r\n\t'c\u3000\"d e\""

theorem lexText_faithful_spread :
    Source.text ≠ .commandLine ∧ spreadSample.WellFormed ∧
      ∃ first second, lexText .text spreadSample = ⟨first ++ second, none⟩ ∧
        (first ++ second).length = 8 ∧ ReadsRow .text 0 " a+12.// b \r\r\n" first ∧
        ReadsRow .text 1 "\t'c\u3000\"d e\"" second := by
  have hs : Source.text ≠ .commandLine := by decide
  have hw : spreadSample.WellFormed := by decide
  have hlines : spreadSample.lines =
      [Text.ofString " a+12.// b \r\r\n", Text.ofString "\t'c\u3000\"d e\""] := by cbv
  have hcount : (lexText .text spreadSample).tokens.length = 8 := by cbv
  obtain ⟨rows, hrows, hlength, hread⟩ := lexText_faithful hs hw
  rw [hlines] at hlength hread
  obtain ⟨first, second, rfl⟩ : ∃ first second, rows = [first, second] :=
    List.length_eq_two.mp hlength
  rw [show [first, second].flatten = first ++ second by simp] at hrows
  rw [hrows] at hcount
  exact ⟨hs, hw, first, second, hrows, hcount, hread 0 _ first rfl rfl, hread 1 _ second rfl rfl⟩

end TextMacros
