import Mathlib.Algebra.Group.Nat.Even
import Mathlib.Order.Bounds.Basic
import TextMacros.Proofs.Reaches

/-!
# Escaped quotes

From left to right a backslash takes the next code point with it. Told from
the quote itself: the quote closes a literal if the backslashes that stand
directly before it are even in number, and if it is the first one like that.
-/

set_option autoImplicit false

namespace TextMacros.Text

/-- The number of backslashes with which the text ends. -/
def backslashesAtEnd (t : Text) : Nat := (t.rtakeWhile (· = CodePoint.backslash)).length

/-- Directly before the quote at a position stands an even number of backslashes. -/
def UnescapedAt (quote : CodePoint) (t : Text) (position : Nat) : Prop :=
  t[position]? = some quote ∧ Even (backslashesAtEnd (t.take position))

theorem backslashesAtEnd_le (t : Text) : t.backslashesAtEnd ≤ t.length :=
  (List.rtakeWhile_suffix _ t).length_le

/-- A code point in front belongs to the run only if the whole text does. -/
theorem backslashesAtEnd_cons (c : CodePoint) (t : Text) : backslashesAtEnd (c :: t) =
    if t.backslashesAtEnd = t.length then t.length + (if c = CodePoint.backslash then 1 else 0)
    else t.backslashesAtEnd := by
  simp only [backslashesAtEnd, List.rtakeWhile, List.length_reverse, List.reverse_cons,
    List.takeWhile_append]
  split
  · by_cases hc : c = CodePoint.backslash <;> simp [hc]
  · rfl

theorem backslashesAtEnd_cons_other {c : CodePoint} (hc : c ≠ CodePoint.backslash) (t : Text) :
    backslashesAtEnd (c :: t) = t.backslashesAtEnd := by
  rw [backslashesAtEnd_cons, if_neg hc]
  split <;> omega

/-- An escape is no part of the run, or adds two backslashes to it. -/
theorem even_backslashesAtEnd_escape (c : CodePoint) (t : Text) :
    Even (backslashesAtEnd (CodePoint.backslash :: c :: t)) ↔ Even t.backslashesAtEnd := by
  have hle := t.backslashesAtEnd_le
  by_cases hc : c = CodePoint.backslash
  · rw [backslashesAtEnd_cons, backslashesAtEnd_cons, List.length_cons, if_pos hc, if_pos rfl]
    by_cases hall : t.backslashesAtEnd = t.length
    · rw [if_pos hall, if_pos rfl, hall]
      grind
    · rw [if_neg hall, if_neg (by omega)]
  · rw [backslashesAtEnd_cons, backslashesAtEnd_cons_other hc, List.length_cons, if_neg (by omega)]

section
variable {quote c : CodePoint} {t : Text}

theorem unescapedAt_zero : UnescapedAt quote (c :: t) 0 ↔ c = quote := by
  simp [UnescapedAt, backslashesAtEnd]

theorem unescapedAt_succ (hc : c ≠ CodePoint.backslash) (position : Nat) :
    UnescapedAt quote (c :: t) (position + 1) ↔ UnescapedAt quote t position := by
  rw [UnescapedAt, UnescapedAt, List.getElem?_cons_succ, List.take_succ_cons,
    backslashesAtEnd_cons_other hc]

/-- What a backslash takes with it is no quote of its own. -/
theorem not_unescapedAt_one : ¬UnescapedAt quote (CodePoint.backslash :: c :: t) 1 := by
  rintro ⟨-, heven⟩
  exact Nat.not_even_one heven

theorem unescapedAt_escape (position : Nat) :
    UnescapedAt quote (CodePoint.backslash :: c :: t) (position + 2) ↔
      UnescapedAt quote t position := by
  rw [UnescapedAt, UnescapedAt, List.getElem?_cons_succ, List.getElem?_cons_succ,
    List.take_succ_cons, List.take_succ_cons, even_backslashesAtEnd_escape]

/-- The closing quote is the first one that is not escaped. -/
theorem Closes.unescapedAt {n : Nat} (hq : quote ≠ CodePoint.backslash) (h : Closes quote t n) :
    ∃ position, n = position + 1 ∧ UnescapedAt quote t position ∧
      ∀ before < position, ¬UnescapedAt quote t before := by
  induction h with
  | here t hb hc => exact ⟨0, rfl, unescapedAt_zero.mpr hc, by simp⟩
  | @escaped t n c h ih =>
    obtain ⟨position, rfl, hat, hfirst⟩ := ih
    refine ⟨position + 2, rfl, (unescapedAt_escape position).mpr hat, fun before hlt => ?_⟩
    obtain _ | _ | before := before
    · rw [unescapedAt_zero]
      exact hq.symm
    · exact not_unescapedAt_one
    · rw [unescapedAt_escape]
      exact hfirst before (by omega)
  | @other c t n hb hc h ih =>
    obtain ⟨position, rfl, hat, hfirst⟩ := ih
    refine ⟨position + 1, rfl, (unescapedAt_succ hb position).mpr hat, fun before hlt => ?_⟩
    obtain _ | before := before
    · rwa [unescapedAt_zero]
    · rw [unescapedAt_succ hb]
      exact hfirst before (by omega)

theorem not_unescapedAt_of_unclosed (hq : quote ≠ CodePoint.backslash)
    (h : closingQuote quote t = none) (position : Nat) : ¬UnescapedAt quote t position := by
  induction t using List.twoStepInduction generalizing position with
  | nil => simp [UnescapedAt]
  | singleton c =>
    rw [closingQuote_cons] at h
    obtain _ | position := position
    · rw [unescapedAt_zero]
      rintro rfl
      simp [hq] at h
    · simp [UnescapedAt]
  | cons_cons c d t ih ih' =>
    rw [closingQuote_cons] at h
    by_cases hb : c = CodePoint.backslash
    · subst hb
      have hrest : closingQuote quote t = none := by simpa using h
      obtain _ | _ | position := position
      · rw [unescapedAt_zero]
        exact hq.symm
      · exact not_unescapedAt_one
      · rw [unescapedAt_escape]
        exact ih hrest position
    · rw [if_neg hb] at h
      obtain ⟨hc, hrest⟩ : c ≠ quote ∧ closingQuote quote (d :: t) = none := by
        simpa [ite_eq_iff] using h
      obtain _ | position := position
      · rwa [unescapedAt_zero]
      · rw [unescapedAt_succ hb]
        exact ih' d hrest position

/-- A literal is closed in a text exactly if some quote in it is not escaped. -/
theorem closingQuote_eq_none_iff (hq : quote ≠ CodePoint.backslash) :
    closingQuote quote t = none ↔ ∀ position, ¬UnescapedAt quote t position := by
  constructor
  · exact not_unescapedAt_of_unclosed hq
  · intro h
    cases hn : closingQuote quote t with
    | none => rfl
    | some n =>
      obtain ⟨position, -, hat, -⟩ := (closes_of_closingQuote hn).unescapedAt hq
      exact absurd hat (h position)

/-- The literal ends behind the first quote that is not escaped. -/
theorem closingQuote_eq_some_iff (hq : quote ≠ CodePoint.backslash) {n : Nat} :
    closingQuote quote t = some n ↔
      ∃ position, n = position + 1 ∧ IsLeast {p | UnescapedAt quote t p} position := by
  have hfirst : ∀ m, closingQuote quote t = some m →
      ∃ position, m = position + 1 ∧ IsLeast {p | UnescapedAt quote t p} position := by
    intro m hm
    obtain ⟨position, hend, hat, hbefore⟩ := (closes_of_closingQuote hm).unescapedAt hq
    exact ⟨position, hend, hat, fun p hp => Nat.le_of_not_lt fun hlt => hbefore p hlt hp⟩
  constructor
  · exact hfirst n
  · rintro ⟨position, rfl, hleast⟩
    cases hm : closingQuote quote t with
    | none => exact absurd hleast.1 ((closingQuote_eq_none_iff hq).mp hm position)
    | some m =>
      obtain ⟨first, rfl, hother⟩ := hfirst m hm
      rw [hother.unique hleast]

end

/-- At a position at or behind a start stands the quote, and the backslashes directly before it,
counted back to the start and no further, are even in number. -/
def UnescapedFrom (quote : CodePoint) (start : Nat) (t : Text) (position : Nat) : Prop :=
  start ≤ position ∧ t[position]? = some quote ∧
    Even (backslashesAtEnd ((t.take position).drop start))

/-- Nothing before the start matters. -/
theorem unescapedFrom_add {quote : CodePoint} {start : Nat} {t : Text} (n : Nat) :
    UnescapedFrom quote start t (start + n) ↔ UnescapedAt quote (t.drop start) n := by
  rw [UnescapedFrom, UnescapedAt, List.getElem?_drop, List.drop_take, Nat.add_sub_cancel_left]
  exact and_iff_right (Nat.le_add_right start n)

theorem isLeast_unescapedFrom {quote : CodePoint} {start : Nat} {t : Text} (n : Nat) :
    IsLeast {p | UnescapedFrom quote start t p} (start + n) ↔
      IsLeast {p | UnescapedAt quote (t.drop start) p} n := by
  constructor
  · rintro ⟨hat, hleast⟩
    refine ⟨(unescapedFrom_add n).mp hat, fun p hp => ?_⟩
    exact Nat.le_of_add_le_add_left (hleast ((unescapedFrom_add p).mpr hp))
  · rintro ⟨hat, hleast⟩
    refine ⟨(unescapedFrom_add n).mpr hat, fun p hp => ?_⟩
    obtain ⟨m, rfl⟩ := Nat.exists_eq_add_of_le hp.1
    exact Nat.add_le_add_left (hleast ((unescapedFrom_add m).mp hp)) start

/-- From a start on, a literal ends directly behind the first quote that is not escaped, within
the line, and it is not closed exactly if there is no such quote. -/
theorem closingQuoteFrom_least {quote : CodePoint} (hq : quote ≠ CodePoint.backslash) (start : Nat)
    (t : Text) :
    (∀ stop, closingQuoteFrom quote start t = some stop ↔
      ∃ position, stop = position + 1 ∧ IsLeast {p | UnescapedFrom quote start t p} position) ∧
    (∀ stop, closingQuoteFrom quote start t = some stop → start < stop ∧ stop ≤ t.length) ∧
    (closingQuoteFrom quote start t = none ↔ ∀ position, ¬UnescapedFrom quote start t position) := by
  have hsome : ∀ stop, closingQuoteFrom quote start t = some stop ↔
      ∃ position, stop = position + 1 ∧ IsLeast {p | UnescapedFrom quote start t p} position := by
    intro stop
    rw [closingQuoteFrom, Option.map_eq_some_iff]
    constructor
    · rintro ⟨n, hn, rfl⟩
      obtain ⟨p, rfl, hp⟩ := (closingQuote_eq_some_iff hq).mp hn
      exact ⟨start + p, by omega, (isLeast_unescapedFrom p).mpr hp⟩
    · rintro ⟨position, rfl, hleast⟩
      obtain ⟨p, rfl⟩ := Nat.exists_eq_add_of_le hleast.1.1
      have hp := (isLeast_unescapedFrom p).mp hleast
      exact ⟨p + 1, (closingQuote_eq_some_iff hq).mpr ⟨p, rfl, hp⟩, by omega⟩
  refine ⟨hsome, fun stop hstop => ?_, ?_⟩
  · obtain ⟨position, rfl, ⟨hstart, hat, -⟩, -⟩ := (hsome stop).mp hstop
    have hlt := (List.getElem?_eq_some_iff.mp hat).1
    omega
  · rw [closingQuoteFrom, Option.map_eq_none_iff, closingQuote_eq_none_iff hq]
    constructor
    · intro h position hat
      obtain ⟨p, rfl⟩ := Nat.exists_eq_add_of_le hat.1
      exact h p ((unescapedFrom_add p).mp hat)
    · exact fun h p hp => h (start + p) ((unescapedFrom_add p).mpr hp)

/-- Runs of three and of two backslashes before a quote, and one at the end of the line. -/
def escapedSample : Text := "\"a\\\\\\\"b\\\\\"\\"

/-- A start within the first run leaves two backslashes of it; the last one takes the scan behind
the end of the line. -/
theorem closingQuoteFrom_least_runs : CodePoint.doubleQuote ≠ CodePoint.backslash ∧
    IsLeast {p | UnescapedFrom CodePoint.doubleQuote 1 escapedSample p} 9 ∧
    IsLeast {p | UnescapedFrom CodePoint.doubleQuote 3 escapedSample p} 5 ∧
    ∀ position, ¬UnescapedFrom CodePoint.doubleQuote 10 escapedSample position := by
  have hq : CodePoint.doubleQuote ≠ CodePoint.backslash := by decide
  have hwhole : closingQuoteFrom CodePoint.doubleQuote 1 escapedSample = some 10 := by decide
  have hinside : closingQuoteFrom CodePoint.doubleQuote 3 escapedSample = some 6 := by decide
  have hend : closingQuoteFrom CodePoint.doubleQuote 10 escapedSample = none := by decide
  obtain ⟨p, hp, hwhole⟩ := ((closingQuoteFrom_least hq 1 escapedSample).1 10).mp hwhole
  obtain ⟨p', hp', hinside⟩ := ((closingQuoteFrom_least hq 3 escapedSample).1 6).mp hinside
  obtain rfl : p = 9 := by omega
  obtain rfl : p' = 5 := by omega
  exact ⟨hq, hwhole, hinside, (closingQuoteFrom_least hq 10 escapedSample).2.2.mp hend⟩

end TextMacros.Text
