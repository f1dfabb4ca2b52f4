import TextMacros.Invocation.Basic

/-!
# Reading arguments

The steps that reading a list of arguments takes, one rule for each kind of
token, and what follows for every argument that is read.
-/

set_option autoImplicit false

namespace TextMacros.ArgumentList

/-- Reading, rule by rule: `depth` parentheses are open inside of the list. -/
inductive Reads : Nat → List Token → ArgumentList → Prop where
  | close {t : Token} {ts : List Token} (hk : t.kind = .rparen) : Reads 0 (t :: ts) closed
  | leave {t : Token} {ts : List Token} {depth : Nat} {a : ArgumentList}
      (hk : t.kind = .rparen) (h : Reads depth ts a) : Reads (depth + 1) (t :: ts) (keep t a)
  | enter {t : Token} {ts : List Token} {depth : Nat} {a : ArgumentList}
      (hk : t.kind = .lparen) (h : Reads (depth + 1) ts a) : Reads depth (t :: ts) (keep t a)
  | comma {t : Token} {ts : List Token} {a : ArgumentList}
      (hk : t.kind = .comma) (h : Reads 0 ts a) : Reads 0 (t :: ts) (split a)
  | layout {t : Token} {ts : List Token} {depth : Nat} {a : ArgumentList}
      (hk : t.isLayout = true) (h : Reads depth ts a) : Reads depth (t :: ts) (skip a)
  | plain {t : Token} {ts : List Token} {depth : Nat} {a : ArgumentList}
      (hr : t.kind ≠ .rparen) (hl : t.kind ≠ .lparen) (hc : t.kind = .comma → depth ≠ 0)
      (hk : t.isLayout = false) (h : Reads depth ts a) : Reads depth (t :: ts) (keep t a)

theorem reads_of_read {depth : Nat} {ts : List Token} {list : ArgumentList}
    (h : read depth ts = some list) : Reads depth ts list := by
  induction depth, ts using ArgumentList.read.induct generalizing list with
  | case1 => simp [read] at h
  | case2 t ts hk =>
    simp only [read, hk, Option.some.injEq] at h
    exact h ▸ .close hk
  | case3 t ts d hk ih =>
    simp only [read, hk, Option.map_eq_some_iff] at h
    obtain ⟨a, ha, rfl⟩ := h
    exact .leave hk (ih ha)
  | case4 t ts d hk ih =>
    simp only [read, hk, Option.map_eq_some_iff] at h
    obtain ⟨a, ha, rfl⟩ := h
    exact .enter hk (ih ha)
  | case5 t ts hk ih =>
    simp only [read, hk, Option.map_eq_some_iff] at h
    obtain ⟨a, ha, rfl⟩ := h
    exact .comma hk (ih ha)
  | case6 t ts d hk ih =>
    simp only [read, hk, Option.map_eq_some_iff] at h
    obtain ⟨a, ha, rfl⟩ := h
    exact .layout (by simp [Token.isLayout, hk]) (ih ha)
  | case7 t ts d hk ih =>
    simp only [read, hk, Option.map_eq_some_iff] at h
    obtain ⟨a, ha, rfl⟩ := h
    exact .layout (by simp [Token.isLayout, hk]) (ih ha)
  | case8 t ts d h₁ h₂ h₃ h₄ h₅ h₆ ih =>
    rw [read.eq_8 t ts d h₃ h₅ h₆ h₁ h₂ h₄] at h
    obtain ⟨a, ha, rfl⟩ := Option.map_eq_some_iff.mp h
    have hr : t.kind ≠ .rparen := by
      intro hk
      cases d with
      | zero => exact h₁ hk rfl
      | succ d => exact h₂ d hk rfl
    exact .plain hr h₃ h₄ (Token.isLayout_eq_false.mpr ⟨h₅, h₆⟩) (ih ha)

theorem read_of_reads {depth : Nat} {ts : List Token} {list : ArgumentList}
    (h : Reads depth ts list) : read depth ts = some list := by
  induction h with
  | close hk => simp [read, hk]
  | leave hk h ih => simp [read, hk, ih]
  | enter hk h ih => simp [read, hk, ih]
  | comma hk h ih => simp [read, hk, ih]
  | layout hk h ih =>
    rcases Token.isLayout_eq_true.mp hk with hk | hk <;> simp [read, hk, ih]
  | @plain t ts depth a hr hl hc hk h ih =>
    obtain ⟨he, hm⟩ := Token.isLayout_eq_false.mp hk
    rw [read.eq_8 t ts depth hl he hm (fun h _ => hr h) (fun _ h _ => hr h) hc, ih]
    rfl

/-- An argument is made of tokens between the parentheses, its layout left out. -/
theorem Reads.mem {depth : Nat} {ts : List Token} {list : ArgumentList}
    (h : Reads depth ts list) :
    ∀ a ∈ list.toList, ∀ t ∈ a, t ∈ ts ∧ t.isLayout = false := by
  induction h with
  | close => simp [closed, toList]
  | leave hk h ih => simp_all [keep, toList, Token.isLayout]; grind
  | enter hk h ih => simp_all [keep, toList, Token.isLayout]; grind
  | comma hk h ih => simp_all [split, toList]; grind
  | layout hk h ih => simp_all [skip, toList]; grind
  | plain hr hl hc hk h ih => simp_all [keep, toList]; grind

theorem Reads.length_pos {depth : Nat} {ts : List Token} {a : ArgumentList}
    (h : Reads depth ts a) : 0 < a.length := by
  cases h <;> simp [closed, keep, split, skip]

/-- What comes after the closing parenthesis is not looked at. -/
theorem Reads.append {depth : Nat} {ts : List Token} {a : ArgumentList}
    (h : Reads depth ts a) (us : List Token) : Reads depth (ts ++ us) a := by
  induction h with
  | close hk => exact .close hk
  | leave hk h ih => exact .leave hk ih
  | enter hk h ih => exact .enter hk ih
  | comma hk h ih => exact .comma hk ih
  | layout hk h ih => exact .layout hk ih
  | plain hr hl hc hk h ih => exact .plain hr hl hc hk ih

end TextMacros.ArgumentList
