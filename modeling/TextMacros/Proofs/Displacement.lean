import Mathlib.Data.List.Induction
import TextMacros.Directive
import TextMacros.Proofs.Edges
import TextMacros.Proofs.Likeness
import TextMacros.Proofs.Rows

/-!
# Displaced lines

A line is read alike in every row but for the space before its first token,
since the start of every row but the first is spaced. Directives do not look
at that space, and what they do does not depend on places.
-/

set_option autoImplicit false

namespace TextMacros

/-- The same tokens at other places, perhaps with another space before the first. -/
def Shifted (ts us : List Token) : Prop := ∃ s, List.Forall₂ Token.Moved (respace s ts) us

theorem shifted_of_moved {ts us : List Token} (h : List.Forall₂ Token.Moved ts us) :
    Shifted ts us := by
  obtain ⟨s, hs⟩ := exists_respace_self ts
  exact ⟨s, hs.symm ▸ h⟩

theorem Shifted.append {ts us vs ws : List Token} (h : Shifted ts us)
    (h' : List.Forall₂ Token.Moved vs ws) : Shifted (ts ++ vs) (us ++ ws) := by
  obtain ⟨s, hs⟩ := h
  cases ts with
  | nil => cases hs; exact shifted_of_moved h'
  | cons t ts => exact ⟨s, append_like hs h'⟩

section
variable {source source' : Source}

theorem lexLine_moved (row row' : Int) (col col' : Nat) (spaced : Bool) (line : Text) :
    List.Forall₂ Token.Moved (lexLine source row col spaced line)
      (lexLine source' row' col' spaced line) := by
  induction col, spaced, line using lexLine.induct generalizing col' with
  | case1 col spaced => simp [lexLine]
  | case2 col spaced c rest hc ih => simpa only [lexLine, if_pos hc] using ih _
  | case3 col spaced c rest hc lexeme ih =>
    simp only [lexLine, if_neg hc]
    exact .cons ⟨rfl, rfl, rfl⟩ (ih _)

theorem lexLine_shifted (row row' : Int) (col col' : Nat) (spaced spaced' : Bool) (line : Text) :
    Shifted (lexLine source row col spaced line) (lexLine source' row' col' spaced' line) := by
  cases line with
  | nil => exact ⟨none, by simp [lexLine, respace]⟩
  | cons c rest =>
    by_cases hc : c.isBlank
    · simp only [lexLine, if_pos hc]
      exact shifted_of_moved (lexLine_moved row row' _ _ _ rest)
    · simp only [lexLine, if_neg hc]
      exact ⟨some spaced', .cons ⟨rfl, rfl, rfl⟩ (lexLine_moved row row' _ _ _ _)⟩

theorem rowBreak_moved (row row' : Int) (line : Text) :
    List.Forall₂ Token.Moved (rowBreak source row line) (rowBreak source row' line) := by
  unfold rowBreak
  split
  · exact .nil
  · exact .cons ⟨rfl, rfl, rfl⟩ .nil

theorem lexRow_shifted (row row' : Int) {line : Text} (h : line.WellFormed) :
    Shifted (lexRow source row line).tokens (lexRow source row' line).tokens := by
  rw [lexRow_eq h, lexRow_eq h]
  exact (lexLine_shifted row row' 0 0 _ _ _).append (rowBreak_moved row row' line)

/-- Below the first row the start of a line is always spaced. -/
theorem lexRows_moved {row row' : Int} (hrow : 0 < row) (hrow' : 0 < row') {ls : List Text}
    (h : ∀ l ∈ ls, Text.WellFormed l) :
    List.Forall₂ Token.Moved (lexRows source row ls).tokens (lexRows source row' ls).tokens := by
  induction ls generalizing row row' with
  | nil => exact .nil
  | cons l ls ih =>
    have hl := h l (by simp)
    rw [lexRows_cons hl, lexRows_cons hl, lexRow_eq hl, lexRow_eq hl]
    simp only [gt_iff_lt, hrow, hrow', decide_true]
    apply append_like (append_like (lexLine_moved row row' 0 0 true _) (rowBreak_moved row row' l))
    exact ih (by omega) (by omega) fun m hm => h m (by simp [hm])

theorem lexRows_shifted {row row' : Int} (hrow : 0 ≤ row) (hrow' : 0 ≤ row') {ls : List Text}
    (h : ∀ l ∈ ls, Text.WellFormed l) :
    Shifted (lexRows source row ls).tokens (lexRows source row' ls).tokens := by
  cases ls with
  | nil => exact shifted_of_moved .nil
  | cons l ls =>
    have hl := h l (by simp)
    rw [lexRows_cons hl, lexRows_cons hl]
    apply (lexRow_shifted row row' hl).append
    exact lexRows_moved (by omega) (by omega) fun m hm => h m (by simp [hm])

end

/-- The same class of error, about the same macro. -/
def Error.SameCause (e f : Error) : Prop := e.label = f.label ∧ e.macroName = f.macroName

theorem FailsLike.sameCause {R : Token → Token → Prop} {e f : Error} (h : FailsLike R e f) :
    e.SameCause f := by
  cases h <;> exact ⟨rfl, rfl⟩

namespace Registry
variable {R : Token → Token → Prop} {r q : Registry}

theorem like_refl (r : Registry) : r.Like Token.Moved r := by
  intro name
  cases r.lookup name with
  | none => exact .none
  | some m => exact .some ⟨rfl, rfl, moved_refl m.body⟩

theorem Like.insert (h : r.Like R q) {m n : Macro} (hm : m.Like R n) :
    (r.insert m).Like R (q.insert n) := by
  intro name
  rw [lookup_insert, lookup_insert, hm.name]
  split
  · exact .some hm
  · exact h name

theorem Like.erase (h : r.Like R q) (erased : Text) : (r.erase erased).Like R (q.erase erased) := by
  intro name
  rw [lookup_erase, lookup_erase]
  split
  · exact .none
  · exact h name

end Registry

/-- Directives that do the same, wherever they stand. -/
structure Directive.Moved (d e : Directive) : Prop where
  isDefinition : d.isDefinition = e.isDefinition
  keyword : d.keyword.Moved e.keyword
  operands : List.Forall₂ Token.Moved d.operands e.operands

theorem withoutLayout_moved {ts us : List Token} (h : List.Forall₂ Token.Moved ts us) :
    List.Forall₂ Token.Moved (withoutLayout ts) (withoutLayout us) := by
  unfold withoutLayout
  induction h with
  | nil => exact .nil
  | cons h hs ih =>
    simp only [List.filter_cons, Token.isLayout, h.kind]
    split
    · exact .cons h ih
    · exact ih

theorem ofLine?_respace (s : Option Bool) (ts : List Token) :
    Directive.ofLine? (respace s ts) = Directive.ofLine? ts := by
  cases ts with
  | nil => rfl
  | cons t ts => cases ts <;> rfl

theorem ofLine?_moved {ts us : List Token} (h : List.Forall₂ Token.Moved ts us) :
    Option.Rel Directive.Moved (Directive.ofLine? ts) (Directive.ofLine? us) := by
  cases h with
  | nil => exact .none
  | cons hm hs =>
    cases hs with
    | nil => exact .none
    | cons hk hr =>
      simp only [Directive.ofLine?, hm.kind, hm.text, hk.kind, hk.text]
      split
      · split
        · exact .some ⟨rfl, hk, withoutLayout_moved hr⟩
        · split
          · exact .some ⟨rfl, hk, withoutLayout_moved hr⟩
          · exact .none
      · exact .none

/-- The space before its first token does not make a line a directive. -/
theorem ofLine?_shifted {ts us : List Token} (h : Shifted ts us) :
    Option.Rel Directive.Moved (Directive.ofLine? ts) (Directive.ofLine? us) := by
  obtain ⟨s, h⟩ := h
  rw [← ofLine?_respace s ts]
  exact ofLine?_moved h

namespace Signature
variable {location location' : Location} {name : Text} {ts us : List Token}

theorem invalidParameter_sameCause (parameter parameter' : Text) :
    (Error.invalidParameter location name parameter).SameCause
      (.invalidParameter location' name parameter') :=
  ⟨rfl, rfl⟩

theorem nonIdentifierName_sameCause :
    (Error.nonIdentifierName location name).SameCause (.nonIdentifierName location' name) :=
  ⟨rfl, rfl⟩

theorem readNames_moved (h : List.Forall₂ Token.Moved ts us) :
    Agree Error.SameCause (fun a b => a.1 = b.1 ∧ List.Forall₂ Token.Moved a.2 b.2)
      (readNames location name ts) (readNames location' name us) := by
  induction ts using List.twoStepInduction generalizing us with
  | nil =>
    cases h
    exact .error (invalidParameter_sameCause _ _)
  | singleton t =>
    obtain ⟨u, _, ht, ⟨⟩, rfl⟩ := List.forall₂_cons_left_iff.mp h
    simp only [readNames, ht.kind]
    split <;> exact .error (invalidParameter_sameCause _ _)
  | cons_cons t separator rest ih _ =>
    obtain ⟨u, _, ht, htail, rfl⟩ := List.forall₂_cons_left_iff.mp h
    obtain ⟨separator', rest', hs, hr, rfl⟩ := List.forall₂_cons_left_iff.mp htail
    simp only [readNames, ht.kind, hs.kind]
    split
    · exact .error (invalidParameter_sameCause _ _)
    split
    · exact .ok ⟨congrArg ([·]) ht.text, hr⟩
    split
    · exact .error (invalidParameter_sameCause _ _)
    · apply (ih hr).map
      rintro ⟨names, after⟩ ⟨names', after'⟩ ⟨hn, ha⟩
      exact ⟨by rw [ht.text, hn], ha⟩

theorem readParameters_moved (h : List.Forall₂ Token.Moved ts us) :
    Agree Error.SameCause (fun a b => a.1 = b.1 ∧ List.Forall₂ Token.Moved a.2 b.2)
      (readParameters location name ts) (readParameters location' name us) := by
  cases h with
  | nil => exact .error nonIdentifierName_sameCause
  | cons ho hs =>
    simp only [readParameters, ho.kind]
    split
    · exact .error nonIdentifierName_sameCause
    · cases hs with
      | nil => exact .error (invalidParameter_sameCause _ _)
      | cons ht hs =>
        simp only [ht.kind]
        split
        · exact .ok ⟨rfl, hs⟩
        · exact readNames_moved (.cons ht hs)

end Signature

theorem Macro.checkParameters_like {m n : Macro} (h : m.name = n.name) (seen ps : List Text) :
    Agree Error.SameCause Eq (m.checkParameters seen ps) (n.checkParameters seen ps) := by
  induction ps generalizing seen with
  | nil => exact .ok rfl
  | cons p ps ih =>
    simp only [checkParameters]
    split
    · exact .error ⟨rfl, congrArg some h⟩
    · split
      · exact .error ⟨rfl, congrArg some h⟩
      · exact ih (p :: seen)

theorem Macro.check_like {R : Token → Token → Prop} {m n : Macro} (h : m.Like R n) :
    Agree Error.SameCause Eq m.check n.check := by
  unfold check
  rw [← h.name, ← h.parameters]
  split
  · exact .error ⟨rfl, rfl⟩
  · exact checkParameters_like h.name [] _

theorem Registry.define_like {R : Token → Token → Prop} {r q : Registry} (h : r.Like R q)
    {m n : Macro} (hm : m.Like R n) :
    Agree Error.SameCause (fun a b => a.1.Like R b.1) (r.define m) (q.define n) :=
  (Macro.check_like hm).bind fun _ _ _ => .ok (h.insert hm)

namespace Directive
variable {d e : Directive}

theorem nameToken_moved (h : d.Moved e) :
    Agree Error.SameCause (fun a b => a.1.Moved b.1 ∧ List.Forall₂ Token.Moved a.2 b.2)
      d.nameToken e.nameToken := by
  have hs := h.operands
  unfold nameToken
  generalize d.operands = ts at hs
  generalize e.operands = us at hs
  cases hs with
  | nil => exact .error ⟨rfl, rfl⟩
  | cons ht hts =>
    simp only [ht.kind]
    split
    · exact .ok ⟨ht, hts⟩
    · exact .error ⟨rfl, congrArg some ht.text⟩

theorem opensParameters_moved {ts us : List Token} (h : List.Forall₂ Token.Moved ts us) :
    opensParameters ts = opensParameters us := by
  cases h with
  | nil => rfl
  | cons ht hs => simp only [opensParameters, ht.kind, ht.spaced]

theorem definition_moved (h : d.Moved e) :
    Agree Error.SameCause (Macro.Like Token.Moved) d.definition e.definition := by
  apply (nameToken_moved h).bind
  rintro ⟨t, ts⟩ ⟨u, us⟩ ⟨ht, hs⟩
  simp only [opensParameters_moved hs]
  split
  · rw [ht.text]
    apply (Signature.readParameters_moved hs).bind
    rintro ⟨names, body⟩ ⟨names', body'⟩ ⟨hn, hb⟩
    exact .ok ⟨rfl, congrArg some hn, hb⟩
  · exact .ok ⟨ht.text, rfl, hs⟩

/-- A directive does the same wherever it stands. -/
theorem apply_moved (h : d.Moved e) {r q : Registry} (hr : r.Like Token.Moved q) :
    Agree Error.SameCause (fun a b => a.1.Like Token.Moved b.1) (d.apply r) (e.apply q) := by
  simp only [apply, h.isDefinition]
  split
  · exact (definition_moved h).bind fun m n hmn => Registry.define_like hr hmn
  · exact (nameToken_moved h).bind fun a b hab => .ok (hab.1.text ▸ hr.erase a.1.text)

end Directive

end TextMacros
