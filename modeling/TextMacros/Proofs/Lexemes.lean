import TextMacros.Proofs.Reaches

/-!
# Where a lexeme ends

Of what follows a lexeme only the first code point decides whether it ends
there. Comments and quotes that open no literal are the exceptions: they look
at the whole line.
-/

set_option autoImplicit false

namespace TextMacros

/-- A quote that opens no literal. -/
def IsStray (kind : TokenKind) (text : Text) : Prop :=
  kind = .punctuation ∧ (text = [CodePoint.doubleQuote] ∨ text = [CodePoint.singleQuote])

instance (kind : TokenKind) (text : Text) : Decidable (IsStray kind text) :=
  inferInstanceAs (Decidable (_ ∧ _))

/-- A lexeme that the next code point may belong to. -/
def Grows (kind : TokenKind) (text : Text) : Prop :=
  kind = .identifier ∨ kind = .number ∨ text = [CodePoint.slash]

section
variable {c : CodePoint} {kind : TokenKind} {body more other : Text}

theorem not_opens_comment (ho : c :: body = [CodePoint.slash] → more.OpensLike other)
    (h : ¬(c = CodePoint.slash ∧ (body ++ other).head? = some CodePoint.slash)) :
    ¬(c = CodePoint.slash ∧ (body ++ more).head? = some CodePoint.slash) := by
  rintro ⟨hc, hm⟩
  apply h
  refine ⟨hc, ?_⟩
  cases body with
  | cons d body => exact hm
  | nil =>
    cases more with
    | nil => simp at hm
    | cons d more =>
      obtain rfl : d = CodePoint.slash := by simpa using hm
      obtain ⟨rest, rfl⟩ | hb := (ho (by rw [hc])).head
      · rfl
      · exact absurd hb (by decide)

theorem literal_append {literal : TokenKind}
    (h : (match Text.closingQuote c (body ++ other) with
      | some n => (literal, n)
      | none => (.punctuation, 0)) = (kind, body.length))
    (hq : ¬(kind = .punctuation ∧ body = [])) (more : Text) :
    (match Text.closingQuote c (body ++ more) with
      | some n => (literal, n)
      | none => (.punctuation, 0)) = (kind, body.length) := by
  cases hc : Text.closingQuote c (body ++ other) with
  | none =>
    rw [hc] at h
    obtain ⟨hk, hb⟩ := Prod.mk.inj h
    exact absurd ⟨hk.symm, List.length_eq_zero_iff.mp hb.symm⟩ hq
  | some n =>
    rw [hc] at h
    obtain ⟨rfl, rfl⟩ := Prod.mk.inj h
    have hclosed := (Text.closes_of_closingQuote hc).take_append more
    rw [List.take_left] at hclosed
    rw [hclosed.closingQuote_eq]

/-- A lexeme ends where it does because of itself or of the first code point after it. -/
theorem munch_append (h : munch c (body ++ other) = (kind, body.length)) (hk : kind ≠ .comment)
    (hq : ¬IsStray kind (c :: body)) (ho : Grows kind (c :: body) → more.OpensLike other) :
    munch c (body ++ more) = (kind, body.length) := by
  unfold munch at h ⊢
  by_cases hs : c = CodePoint.slash ∧ (body ++ other).head? = some CodePoint.slash
  · rw [if_pos hs] at h
    exact absurd (Prod.mk.inj h).1.symm hk
  rw [if_neg hs] at h
  rw [if_neg (not_opens_comment (fun ht => ho (.inr (.inr ht))) hs)]
  by_cases hd : c = CodePoint.doubleQuote
  · rw [if_pos hd] at h ⊢
    exact literal_append h (fun ⟨hp, hb⟩ => hq ⟨hp, .inl (by rw [hb, hd])⟩) more
  rw [if_neg hd] at h ⊢
  by_cases hs : c = CodePoint.singleQuote
  · rw [if_pos hs] at h ⊢
    exact literal_append h (fun ⟨hp, hb⟩ => hq ⟨hp, .inr (by rw [hb, hs])⟩) more
  rw [if_neg hs] at h ⊢
  by_cases hn : c.isDigit
  · rw [if_pos hn] at h ⊢
    obtain ⟨rfl, hb⟩ := Prod.mk.inj h
    rw [Text.numberLength_append (ho (.inr (.inl rfl))) hb]
  rw [if_neg hn] at h ⊢
  by_cases hi : c.startsIdentifier
  · rw [if_pos hi] at h ⊢
    obtain ⟨rfl, hb⟩ := Prod.mk.inj h
    rw [Text.takeWhile_append_length (fun c => CodePoint.not_continues_of_blank)
      (ho (.inl rfl)) hb]
  · rw [if_neg hi] at h ⊢
    exact h

/-- What a lexeme can be, and where it ends. -/
inductive Munches (c : CodePoint) (rest : Text) : TokenKind → Nat → Prop where
  | comment (hc : c = CodePoint.slash) (hr : rest.head? = some CodePoint.slash) :
      Munches c rest .comment rest.trimEnd.length
  | literal {kind : TokenKind} {n : Nat} (hc : c = CodePoint.doubleQuote ∨ c = CodePoint.singleQuote)
      (hk : kind ≠ .comment) (h : Text.Closes c rest n) : Munches c rest kind n
  | number (hc : c.isDigit) : Munches c rest .number rest.numberLength
  | identifier (hc : c.startsIdentifier) :
      Munches c rest .identifier (rest.takeWhile CodePoint.continuesIdentifier).length
  | symbol {kind : TokenKind} (hk : kind ≠ .comment) : Munches c rest kind 0

theorem munches (c : CodePoint) (rest : Text) : Munches c rest (munch c rest).1 (munch c rest).2 := by
  unfold munch
  by_cases hs : c = CodePoint.slash ∧ rest.head? = some CodePoint.slash
  · rw [if_pos hs]
    exact .comment hs.1 hs.2
  rw [if_neg hs]
  by_cases hd : c = CodePoint.doubleQuote
  · rw [if_pos hd]
    cases hc : Text.closingQuote c rest with
    | none => exact .symbol (by simp)
    | some n => exact .literal (.inl hd) (by simp) (Text.closes_of_closingQuote hc)
  rw [if_neg hd]
  by_cases hs : c = CodePoint.singleQuote
  · rw [if_pos hs]
    cases hc : Text.closingQuote c rest with
    | none => exact .symbol (by simp)
    | some n => exact .literal (.inr hs) (by simp) (Text.closes_of_closingQuote hc)
  rw [if_neg hs]
  by_cases hn : c.isDigit
  · rw [if_pos hn]
    exact .number hn
  rw [if_neg hn]
  by_cases hi : c.startsIdentifier
  · rw [if_pos hi]
    exact .identifier hi
  · rw [if_neg hi]
    refine .symbol ?_
    unfold TokenKind.ofSymbol
    split <;> simp

theorem munch_comment {rest : Text} (h : (munch c rest).1 = .comment) :
    c = CodePoint.slash ∧ rest.head? = some CodePoint.slash ∧
      (munch c rest).2 = rest.trimEnd.length := by
  have hm := munches c rest
  rw [h] at hm
  generalize (munch c rest).2 = n at hm
  cases hm with
  | comment hc hr => exact ⟨hc, hr, rfl⟩
  | literal _ hk | symbol hk => exact absurd rfl hk

/-- A lexeme does not reach beyond the line. -/
theorem munch_le (c : CodePoint) (rest : Text) : (munch c rest).2 ≤ rest.length := by
  have h := munches c rest
  generalize (munch c rest).1 = kind at h
  generalize (munch c rest).2 = n at h
  cases h with
  | comment => exact Text.length_trimEnd_le rest
  | literal hc hk h =>
    obtain ⟨front, hf, rfl⟩ := h.take_eq
    have hlen := congrArg List.length hf
    simp only [List.length_take, List.length_append, List.length_singleton] at hlen
    omega
  | number => exact Text.numberLength_le rest
  | identifier => exact (List.takeWhile_prefix _).length_le
  | symbol => exact Nat.zero_le _

/-- By itself a lexeme is read as itself. -/
theorem munch_take {rest : Text}
    (hq : ¬IsStray (munch c rest).1 (c :: rest.take (munch c rest).2)) :
    munch c (rest.take (munch c rest).2) = munch c rest := by
  by_cases hk : (munch c rest).1 = .comment
  · obtain ⟨hc, hr, hn⟩ := munch_comment hk
    have hhead := Text.head?_trimEnd hr (by decide)
    have htrim : Text.trimEnd rest.trimEnd = rest.trimEnd := Text.trimmed_trimEnd rest
    rw [hn, Text.take_trimEnd, munch, if_pos ⟨hc, hhead⟩, htrim, ← hn, ← hk]
  · have hlen : (rest.take (munch c rest).2).length = (munch c rest).2 := by
      rw [List.length_take]
      exact Nat.min_eq_left (munch_le c rest)
    have hmunch : munch c (rest.take (munch c rest).2 ++ rest.drop (munch c rest).2) =
        ((munch c rest).1, (rest.take (munch c rest).2).length) := by
      rw [List.take_append_drop, hlen]
    have htake := munch_append hmunch hk hq fun _ => Text.OpensLike.of_nil _
    rw [List.append_nil, hlen] at htake
    exact htake

/-- No lexeme ends in white space. -/
theorem munch_trimmed (hc : c.isBlank = false) (h : munch c body = (kind, body.length)) :
    Text.Trimmed (c :: body) := by
  by_cases hb : body = []
  · have hlast : Text.Trimmed ([] ++ [c]) := Text.trimmed_of_last hc
    rwa [hb]
  suffices hbody : Text.Trimmed body from Text.trimmed_append hbody hb [c]
  have hm := munches c body
  rw [h] at hm
  generalize hn : body.length = n at hm
  cases hm with
  | comment => exact Text.trimmed_of_length hn.symm
  | @literal _ _ hq hk hclosed =>
    obtain ⟨front, hf, -⟩ := hclosed.take_eq
    rw [← hn, List.take_length] at hf
    rw [hf]
    apply Text.trimmed_of_last
    obtain rfl | rfl := hq <;> rfl
  | number =>
    refine Text.trimmed_of_all ?_ (Text.number_of_numberLength hn.symm)
    intro c hb
    simp [CodePoint.not_digit_of_blank hb, CodePoint.not_dot_of_blank hb]
  | identifier =>
    have hrun : body.takeWhile CodePoint.continuesIdentifier = body :=
      (List.takeWhile_prefix _).eq_of_length hn.symm
    exact Text.trimmed_of_all (fun c => CodePoint.not_continues_of_blank)
      (List.takeWhile_eq_self_iff.mp hrun)
  | symbol => exact absurd (List.length_eq_zero_iff.mp hn) hb

end

end TextMacros
