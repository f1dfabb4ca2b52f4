import Mathlib.Data.List.DropRight
import TextMacros.Text.Lines
import TextMacros.Token.Lexeme

/-!
# Runs and literals

How far names, numbers and literals reach in a text, and how much of what
follows them may be replaced before they reach further. White space ends
every run, and the end of a line is found by what is no white space.
-/

set_option autoImplicit false

namespace TextMacros

namespace CodePoint

theorem bounds_of_blank {c : Nat} (h : isBlank c) : c ≤ 0x20 ∨ 0x85 ≤ c := by
  simp only [isBlank, CodePoint, Bool.or_eq_true, Bool.and_eq_true, decide_eq_true_eq] at h
  omega

theorem not_digit_of_blank {c : Nat} (h : isBlank c) : isDigit c = false := by
  have hb := bounds_of_blank h
  simp only [isDigit, CodePoint, Bool.and_eq_false_iff, decide_eq_false_iff_not]
  omega

theorem not_continues_of_blank {c : Nat} (h : isBlank c) : continuesIdentifier c = false := by
  have hb := bounds_of_blank h
  simp only [continuesIdentifier, startsIdentifier, isLetter, isCapital, isDigit, CodePoint,
    underscore, Bool.or_eq_false_iff, Bool.and_eq_false_iff, decide_eq_false_iff_not]
  omega

theorem not_dot_of_blank {c : Nat} (h : isBlank c) : c ≠ dot := by
  rintro rfl
  exact absurd h (by decide)

end CodePoint

namespace Text

/-- Every code point that may begin `more` may begin `other`, or is white space. -/
def OpensLike (more other : Text) : Prop := ∀ d ∈ more.head?, d ∈ other.head? ∨ CodePoint.isBlank d

theorem OpensLike.of_nil (other : Text) : OpensLike [] other := by
  simp [OpensLike]

theorem OpensLike.of_blank {c : CodePoint} (hc : c.isBlank) (more other : Text) :
    OpensLike (c :: more) other := by
  simp [OpensLike, hc]

theorem OpensLike.of_append {text : Text} (h : text ≠ []) (more other : Text) :
    OpensLike (text ++ more) (text ++ other) := by
  cases text with
  | nil => exact absurd rfl h
  | cons c text => simp [OpensLike]

theorem OpensLike.head {d : CodePoint} {more other : Text} (h : OpensLike (d :: more) other) :
    (∃ rest, other = d :: rest) ∨ CodePoint.isBlank d := by
  cases h d rfl with
  | inl hd =>
    cases other with
    | nil => simp at hd
    | cons e other => exact .inl ⟨other, by simpa using hd⟩
  | inr hb => exact .inr hb

theorem takeWhile_cons_length (p : CodePoint → Bool) (c : CodePoint) (t : Text) :
    ((c :: t).takeWhile p).length = if p c then (t.takeWhile p).length + 1 else 0 := by
  rw [List.takeWhile_cons]
  split <;> rfl

theorem numberLength_cons (c : CodePoint) (t : Text) :
    numberLength (c :: t) = if c.isDigit then numberLength t + 1
      else if c = CodePoint.dot then 1 + (t.takeWhile CodePoint.isDigit).length else 0 := by
  unfold numberLength
  rw [List.takeWhile_cons]
  by_cases hc : c.isDigit
  · simp only [hc, if_true, List.length_cons, List.drop_succ_cons]
    split <;> omega
  · by_cases hd : c = CodePoint.dot
    · subst hd
      simp [hc]
    · simp [hc, hd]

section
variable {more other : Text}

theorem takeWhile_append_length {p : CodePoint → Bool}
    (hp : ∀ c, CodePoint.isBlank c → p c = false) (ho : more.OpensLike other) {body : Text}
    (h : ((body ++ other).takeWhile p).length = body.length) :
    ((body ++ more).takeWhile p).length = body.length := by
  induction body with
  | nil =>
    cases more with
    | nil => rfl
    | cons d more =>
      rw [List.nil_append, takeWhile_cons_length]
      obtain ⟨rest, rfl⟩ | hb := ho.head
      · by_cases hd : p d
        · rw [List.nil_append, takeWhile_cons_length, if_pos hd] at h
          simp at h
        · exact if_neg hd
      · simp [hp d hb]
  | cons c body ih =>
    rw [List.cons_append, takeWhile_cons_length] at h ⊢
    by_cases hc : p c
    · rw [if_pos hc] at h ⊢
      rw [ih (by simpa using h), List.length_cons]
    · rw [if_neg hc] at h
      simp at h

theorem numberLength_append (ho : more.OpensLike other) {body : Text}
    (h : (body ++ other).numberLength = body.length) :
    (body ++ more).numberLength = body.length := by
  induction body with
  | nil =>
    cases more with
    | nil => rfl
    | cons d more =>
      rw [List.nil_append, numberLength_cons]
      obtain ⟨rest, rfl⟩ | hb := ho.head
      · rw [List.nil_append, numberLength_cons] at h
        by_cases hd : d.isDigit
        · simp [hd] at h
        · by_cases hdot : d = CodePoint.dot
          · rw [if_neg hd, if_pos hdot, List.length_nil] at h
            omega
          · rw [if_neg hd, if_neg hdot, List.length_nil]
      · rw [CodePoint.not_digit_of_blank hb, if_neg (CodePoint.not_dot_of_blank hb)]
        rfl
  | cons c body ih =>
    rw [List.cons_append, numberLength_cons] at h ⊢
    by_cases hc : c.isDigit
    · rw [if_pos hc] at h ⊢
      rw [ih (by simpa using h), List.length_cons]
    · rw [if_neg hc] at h ⊢
      by_cases hd : c = CodePoint.dot
      · rw [if_pos hd] at h ⊢
        have hr : ((body ++ other).takeWhile CodePoint.isDigit).length = body.length := by
          rw [List.length_cons] at h
          omega
        rw [takeWhile_append_length (fun c => CodePoint.not_digit_of_blank) ho hr, List.length_cons]
        omega
      · rw [if_neg hd] at h
        simp at h

theorem numberLength_le (t : Text) : numberLength t ≤ t.length := by
  induction t with
  | nil => exact Nat.le_refl 0
  | cons c t ih =>
    have hrun := (List.takeWhile_prefix CodePoint.isDigit (l := t)).length_le
    rw [numberLength_cons, List.length_cons]
    split
    · omega
    · split <;> omega

theorem number_of_numberLength {t : Text} (h : numberLength t = t.length) :
    ∀ c ∈ t, CodePoint.isDigit c || c = CodePoint.dot := by
  induction t with
  | nil => simp
  | cons c t ih =>
    rw [numberLength_cons, List.length_cons] at h
    by_cases hc : c.isDigit
    · rw [if_pos hc] at h
      simpa [hc] using ih (by omega)
    · rw [if_neg hc] at h
      by_cases hd : c = CodePoint.dot
      · rw [if_pos hd] at h
        have hrun : t.takeWhile CodePoint.isDigit = t :=
          (List.takeWhile_prefix _).eq_of_length (by omega)
        have hall := List.takeWhile_eq_self_iff.mp hrun
        simpa [hd] using fun c hm => .inl (hall c hm)
      · rw [if_neg hd] at h
        omega

theorem closingQuote_cons (quote c : CodePoint) (t : Text) :
    closingQuote quote (c :: t) =
      if c = CodePoint.backslash then (closingQuote quote (t.drop 1)).map (· + 2)
      else if c = quote then some 1 else (closingQuote quote t).map (· + 1) := by
  cases t with
  | nil =>
    by_cases hb : c = CodePoint.backslash
    · simp [closingQuote, hb]
    · by_cases hq : c = quote <;> simp [closingQuote, hb, hq]
  | cons d rest => rfl

/-- A literal that is closed after a number of code points. -/
inductive Closes (quote : CodePoint) : Text → Nat → Prop where
  | here {c : CodePoint} (t : Text) (hb : c ≠ CodePoint.backslash) (hc : c = quote) :
      Closes quote (c :: t) 1
  | escaped {t : Text} {n : Nat} (c : CodePoint) (h : Closes quote t n) :
      Closes quote (CodePoint.backslash :: c :: t) (n + 2)
  | other {c : CodePoint} {t : Text} {n : Nat} (hb : c ≠ CodePoint.backslash) (hc : c ≠ quote)
      (h : Closes quote t n) : Closes quote (c :: t) (n + 1)

variable {quote : CodePoint} {t : Text} {n : Nat}

theorem closes_of_closingQuote (h : closingQuote quote t = some n) : Closes quote t n := by
  induction t using List.twoStepInduction generalizing n with
  | nil => simp [closingQuote] at h
  | singleton c =>
    rw [closingQuote_cons] at h
    by_cases hb : c = CodePoint.backslash
    · simp [hb, closingQuote] at h
    · by_cases hc : c = quote
      · rw [if_neg hb, if_pos hc] at h
        cases h
        exact .here [] hb hc
      · simp [hb, hc, closingQuote] at h
  | cons_cons c d rest ih ih' =>
    rw [closingQuote_cons] at h
    by_cases hb : c = CodePoint.backslash
    · rw [if_pos hb] at h
      obtain ⟨m, hm, rfl⟩ := Option.map_eq_some_iff.mp h
      exact hb ▸ .escaped d (ih hm)
    · rw [if_neg hb] at h
      by_cases hc : c = quote
      · rw [if_pos hc] at h
        cases h
        exact .here _ hb hc
      · rw [if_neg hc] at h
        obtain ⟨m, hm, rfl⟩ := Option.map_eq_some_iff.mp h
        exact .other hb hc (ih' d hm)

theorem Closes.closingQuote_eq (h : Closes quote t n) : closingQuote quote t = some n := by
  induction h with
  | here t hb hc => rw [closingQuote_cons, if_neg hb, if_pos hc]
  | escaped c h ih => rw [closingQuote_cons, if_pos rfl, List.drop_one, List.tail_cons, ih]; rfl
  | other hb hc h ih => rw [closingQuote_cons, if_neg hb, if_neg hc, ih]; rfl

/-- Nothing after the closing quote matters. -/
theorem Closes.take_append (h : Closes quote t n) (more : Text) :
    Closes quote (t.take n ++ more) n := by
  induction h with
  | here t hb hc => exact .here _ hb hc
  | escaped c h ih => exact .escaped c ih
  | other hb hc h ih => exact .other hb hc ih

theorem Closes.take_eq (h : Closes quote t n) :
    ∃ front, t.take n = front ++ [quote] ∧ front.length + 1 = n := by
  induction h with
  | here t hb hc => exact ⟨[], by simp [hc], rfl⟩
  | escaped c h ih =>
    obtain ⟨front, hf, hn⟩ := ih
    exact ⟨CodePoint.backslash :: c :: front, by simpa using hf, by simpa using hn⟩
  | @other c t n hb hc h ih =>
    obtain ⟨front, hf, hn⟩ := ih
    exact ⟨c :: front, by simpa using hf, by simpa using hn⟩

end

end Text

namespace Text

/-- White space at the end of `t` is left out, and there is none. -/
def Trimmed (t : Text) : Prop := t.trimEnd = t

theorem trimmed_iff {t : Text} : Trimmed t ↔ ∀ h : t ≠ [], ¬CodePoint.isBlank (t.getLast h) :=
  List.rdropWhile_eq_self_iff

theorem trimmed_trimEnd (t : Text) : Trimmed t.trimEnd := List.rdropWhile_idempotent _ t

theorem take_trimEnd (t : Text) : t.take t.trimEnd.length = t.trimEnd :=
  (List.prefix_iff_eq_take.mp (List.rdropWhile_prefix _ t)).symm

theorem length_trimEnd_le (t : Text) : t.trimEnd.length ≤ t.length :=
  (List.rdropWhile_prefix _ t).length_le

theorem blank_of_mem_drop_trimEnd (t : Text) :
    ∀ c ∈ t.drop t.trimEnd.length, CodePoint.isBlank c := by
  have hsplit : t.trimEnd ++ t.rtakeWhile CodePoint.isBlank = t :=
    List.rdropWhile_append_rtakeWhile ..
  have hdrop : (t.trimEnd ++ t.rtakeWhile CodePoint.isBlank).drop t.trimEnd.length =
      t.rtakeWhile CodePoint.isBlank := List.drop_left
  rw [hsplit] at hdrop
  rw [hdrop]
  exact fun c hc => List.mem_rtakeWhile_imp hc

theorem trimmed_of_length {t : Text} (h : t.trimEnd.length = t.length) : Trimmed t :=
  (List.rdropWhile_prefix _ t).eq_of_length h

theorem trimmed_of_last {front : Text} {c : CodePoint} (hc : c.isBlank = false) :
    Trimmed (front ++ [c]) := by
  rw [trimmed_iff]
  simp [hc]

theorem trimmed_append {t : Text} (h : Trimmed t) (hne : t ≠ []) (front : Text) :
    Trimmed (front ++ t) := by
  rw [trimmed_iff] at h ⊢
  intro h'
  rw [List.getLast_append_of_ne_nil h' hne]
  exact h hne

theorem trimmed_of_all {p : CodePoint → Bool} (hp : ∀ c, CodePoint.isBlank c → p c = false)
    {t : Text} (h : ∀ c ∈ t, p c) : Trimmed t := by
  rw [trimmed_iff]
  intro hne hb
  have hl := h _ (List.getLast_mem hne)
  rw [hp _ hb] at hl
  exact absurd hl (by simp)

theorem head?_trimEnd {t : Text} {c : CodePoint} (h : t.head? = some c) (hc : c.isBlank = false) :
    t.trimEnd.head? = some c := by
  have hne : t.trimEnd ≠ [] := by
    intro hnil
    have hall := List.rdropWhile_eq_nil_iff.mp hnil c (List.mem_of_head? h)
    simp [hc] at hall
  obtain ⟨rest, hr⟩ : ∃ rest, t.trimEnd ++ rest = t := List.rdropWhile_prefix _ t
  rw [← hr, List.head?_append_of_ne_nil _ hne] at h
  exact h

theorem lineContent_of_trimmed {t : Text} (h : Trimmed t) : lineContent t = t := by
  have hself : List.rdropWhile isBreak t = t := by
    rw [List.rdropWhile_eq_self_iff]
    intro hne hb
    apply trimmed_iff.mp h hne
    simp only [isBreak, Bool.or_eq_true, decide_eq_true_eq] at hb
    cases hb with
    | inl hb => rw [hb]; rfl
    | inr hb => rw [hb]; rfl
  exact hself

end Text

end TextMacros
