import TextMacros.Proofs.Lexemes

/-!
# Shortened white space

Runs of white space in a line may be shortened to one space, and left out at
its end. What stands before them is read as it was: above all, a quote that
the line does not close is not closed by the shorter line either.
-/

set_option autoImplicit false

namespace TextMacros

namespace Text

/-- The second text is the first one with some runs of white space shortened. -/
inductive Shrinks : Text → Text → Prop where
  | dropped {blanks : Text} (hb : ∀ c ∈ blanks, CodePoint.isBlank c) : Shrinks blanks []
  | kept (c : CodePoint) {x y : Text} (h : Shrinks x y) : Shrinks (c :: x) (c :: y)
  | shortened {blanks x y : Text} (hb : ∀ c ∈ blanks, CodePoint.isBlank c) (hne : blanks ≠ [])
      (h : Shrinks x y) : Shrinks (blanks ++ x) (CodePoint.space :: y)

namespace Shrinks
variable {x y : Text}

theorem append_left (h : Shrinks x y) (front : Text) : Shrinks (front ++ x) (front ++ y) := by
  induction front with
  | nil => exact h
  | cons c front ih => exact .kept c ih

/-- The shorter text begins like the other one, or with white space. -/
theorem opensLike (h : Shrinks x y) : y.OpensLike x := by
  cases h with
  | dropped hb => exact .of_nil _
  | kept c h => simp [OpensLike]
  | shortened hb hne h => exact .of_blank rfl _ _

end Shrinks

variable {quote : CodePoint}

/-- White space neither closes a literal nor keeps it from being closed. -/
theorem closes_blanks (hq : quote.isBlank = false) {blanks x : Text}
    (hb : ∀ c ∈ blanks, CodePoint.isBlank c) {n : Nat} (h : Closes quote x n) :
    Closes quote (blanks ++ x) (blanks.length + n) := by
  induction blanks with
  | nil => simpa using h
  | cons c blanks ih =>
    have hc := hb c (by simp)
    have hrest := ih fun d hd => hb d (by simp [hd])
    have hne : c ≠ CodePoint.backslash := by
      rintro rfl
      exact absurd hc (by decide)
    have hne' : c ≠ quote := by
      rintro rfl
      rw [hq] at hc
      exact absurd hc (by simp)
    rw [List.cons_append, List.length_cons, Nat.add_right_comm]
    exact .other hne hne' hrest

/-- Where the shorter text closes a literal, the other one does too. A
backslash takes one code point of white space, however many there are. -/
theorem Shrinks.closes (hq : quote.isBlank = false) {x y : Text} (h : Shrinks x y) {n : Nat}
    (hc : Closes quote y n) : ∃ m, Closes quote x m := by
  induction hc generalizing x with
  | here t hb heq =>
    cases h with
    | kept c h => exact ⟨1, .here _ hb heq⟩
    | shortened _ _ h =>
      rw [← heq] at hq
      exact absurd hq (by decide)
  | escaped d hclosed ih =>
    cases h with
    | kept c h =>
      cases h with
      | kept c h =>
        obtain ⟨m, hm⟩ := ih h
        exact ⟨_, .escaped d hm⟩
      | @shortened blanks x y hb hne h =>
        obtain ⟨m, hm⟩ := ih h
        obtain ⟨b, blanks, rfl⟩ := List.exists_cons_of_ne_nil hne
        have hblanks : ∀ c ∈ blanks, CodePoint.isBlank c := fun c hc => hb c (by simp [hc])
        have hrest := closes_blanks hq hblanks hm
        exact ⟨_, .escaped b hrest⟩
  | other hb hne hclosed ih =>
    cases h with
    | kept c h =>
      obtain ⟨m, hm⟩ := ih h
      exact ⟨_, .other hb hne hm⟩
    | shortened hblank _ h =>
      obtain ⟨m, hm⟩ := ih h
      exact ⟨_, closes_blanks hq hblank hm⟩

theorem Shrinks.closingQuote_eq_none (hq : quote.isBlank = false) {x y : Text} (h : Shrinks x y)
    (hx : closingQuote quote x = none) : closingQuote quote y = none := by
  cases hy : closingQuote quote y with
  | none => rfl
  | some n =>
    obtain ⟨m, hm⟩ := h.closes hq (closes_of_closingQuote hy)
    rw [hm.closingQuote_eq] at hx
    cases hx

end Text

section
variable {c : CodePoint} {rest : Text}

theorem munch_quote (hc : c = CodePoint.doubleQuote ∨ c = CodePoint.singleQuote) (rest : Text) :
    munch c rest = match rest.closingQuote c with
      | some n => (if c = CodePoint.doubleQuote then .string else .character, n)
      | none => (.punctuation, 0) := by
  have hs : c ≠ CodePoint.slash := by rcases hc with rfl | rfl <;> decide
  by_cases hd : c = CodePoint.doubleQuote
  · have hopen : munch c rest = match rest.closingQuote c with
        | some n => (.string, n)
        | none => (.punctuation, 0) := (if_neg fun h => hs h.1).trans (if_pos hd)
    rw [hopen, if_pos hd]
  · have hopen : munch c rest = match rest.closingQuote c with
        | some n => (.character, n)
        | none => (.punctuation, 0) :=
      ((if_neg fun h => hs h.1).trans (if_neg hd)).trans (if_pos (hc.resolve_left hd))
    rw [hopen, if_neg hd]

/-- A stray quote is one that the line does not close. -/
theorem closingQuote_of_stray (h : IsStray (munch c rest).1 (c :: rest.take (munch c rest).2)) :
    (c = CodePoint.doubleQuote ∨ c = CodePoint.singleQuote) ∧ rest.closingQuote c = none := by
  obtain ⟨hk, ht⟩ := h
  have hc : c = CodePoint.doubleQuote ∨ c = CodePoint.singleQuote :=
    ht.imp (fun h => (List.cons.inj h).1) fun h => (List.cons.inj h).1
  refine ⟨hc, ?_⟩
  rw [munch_quote hc] at hk
  cases hq : rest.closingQuote c with
  | none => rfl
  | some n =>
    rw [hq] at hk
    by_cases hd : c = CodePoint.doubleQuote <;> simp [hd] at hk

theorem length_take_munch (c : CodePoint) (rest : Text) :
    (rest.take (munch c rest).2).length = (munch c rest).2 := by
  rw [List.length_take]
  exact Nat.min_eq_left (munch_le c rest)

theorem trimmed_munch (hc : c.isBlank = false) : Text.Trimmed (c :: rest.take (munch c rest).2) := by
  by_cases hq : IsStray (munch c rest).1 (c :: rest.take (munch c rest).2)
  · have hstray : Text.Trimmed ([] ++ [c]) := Text.trimmed_of_last hc
    have htake : rest.take (munch c rest).2 = [] :=
      hq.2.elim (fun h => (List.cons.inj h).2) fun h => (List.cons.inj h).2
    rwa [htake]
  · have hmunch : munch c (rest.take (munch c rest).2) =
        ((munch c rest).1, (rest.take (munch c rest).2).length) := by
      rw [munch_take hq, length_take_munch]
    exact munch_trimmed hc hmunch

/-- A lexeme is the same where white space after it is shortened. Behind a
comment nothing but white space stands, which has to be left out. -/
theorem munch_shrinks {more : Text} (h : Text.Shrinks (rest.drop (munch c rest).2) more)
    (hm : (munch c rest).1 = .comment → more = []) :
    munch c (rest.take (munch c rest).2 ++ more) = munch c rest := by
  by_cases hq : IsStray (munch c rest).1 (c :: rest.take (munch c rest).2)
  · obtain ⟨hc, hnone⟩ := closingQuote_of_stray hq
    have hblank : c.isBlank = false := by rcases hc with rfl | rfl <;> rfl
    have hmunch : munch c rest = (.punctuation, 0) := by rw [munch_quote hc, hnone]
    rw [hmunch] at h ⊢
    have hmore : more.closingQuote c = none := h.closingQuote_eq_none hblank hnone
    rw [List.take_zero, List.nil_append, munch_quote hc, hmore]
  by_cases hk : (munch c rest).1 = .comment
  · rw [hm hk, List.append_nil]
    exact munch_take hq
  · have hmunch : munch c (rest.take (munch c rest).2 ++ rest.drop (munch c rest).2) =
        ((munch c rest).1, (rest.take (munch c rest).2).length) := by
      rw [List.take_append_drop, length_take_munch]
    have happ := munch_append hmunch hk hq fun _ => h.opensLike
    rw [happ, length_take_munch]

end

end TextMacros
