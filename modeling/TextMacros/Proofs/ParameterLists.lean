import Mathlib.Data.List.Induction
import TextMacros.Macro.Signature
import TextMacros.Proofs.Results

/-!
# Parameter lists

Which tokens are a list of parameters, and which are a signature. A list is
read exactly if it is one, up to its closing parenthesis and no further. All
that fails does so as a definition that is not valid.
-/

set_option autoImplicit false

namespace TextMacros.Signature

/-- Names with single commas between them, and the parenthesis that closes the list. -/
inductive NameList : List Text → List Token → Prop where
  | last {t close : Token} (hk : t.kind = .identifier) (hc : close.kind = .rparen) :
      NameList [t.text] [t, close]
  | more {t comma : Token} {ps : List Text} {ts : List Token} (hk : t.kind = .identifier)
      (hc : comma.kind = .comma) (h : NameList ps ts) : NameList (t.text :: ps) (t :: comma :: ts)

inductive ParameterList : List Text → List Token → Prop where
  | empty {opening close : Token} (ho : opening.kind = .lparen) (hc : close.kind = .rparen) :
      ParameterList [] [opening, close]
  | names {opening : Token} {ps : List Text} {ts : List Token} (ho : opening.kind = .lparen)
      (h : NameList ps ts) : ParameterList ps (opening :: ts)

inductive Spelled : Signature → List Token → Prop where
  | name {t : Token} (hk : t.kind = .identifier) : Spelled ⟨t.text, none⟩ [t]
  | list {t : Token} {ps : List Text} {ts : List Token} (hk : t.kind = .identifier)
      (h : ParameterList ps ts) : Spelled ⟨t.text, some ps⟩ (t :: ts)

section
variable {location : Location} {name : Text} {ps : List Text} {ts rest : List Token}

theorem NameList.read (h : NameList ps ts) (rest : List Token) :
    readNames location name (ts ++ rest) = .ok (ps, rest) := by
  induction h with
  | last hk hc => simp [readNames, hk, hc]
  | more hk hc h ih => simp [readNames, hk, hc, ih, Except.map]

theorem exists_nameList (h : readNames location name ts = .ok (ps, rest)) :
    ∃ front, ts = front ++ rest ∧ NameList ps front := by
  induction ts using List.twoStepInduction generalizing ps with
  | nil => cases h
  | singleton t =>
    rw [readNames] at h
    split at h <;> cases h
  | cons_cons t separator after ih _ =>
    rw [readNames] at h
    split at h
    · cases h
    next hk =>
    have hk : t.kind = .identifier := not_not.mp hk
    split at h
    next hc =>
      cases h
      exact ⟨[t, separator], rfl, .last hk hc⟩
    split at h
    · cases h
    next hc =>
      have hc : separator.kind = .comma := not_not.mp hc
      obtain ⟨⟨names, left⟩, hread, heq⟩ := map_eq_ok.mp h
      cases heq
      obtain ⟨front, rfl, hfront⟩ := ih hread
      exact ⟨t :: separator :: front, rfl, .more hk hc hfront⟩

theorem ParameterList.read (h : ParameterList ps ts) (rest : List Token) :
    readParameters location name (ts ++ rest) = .ok (ps, rest) := by
  cases h with
  | empty ho hc => simp [readParameters, ho, hc]
  | @names opening ps ts ho h =>
    have hread : readNames location name (ts ++ rest) = .ok (ps, rest) := h.read rest
    -- The first of the names is no parenthesis.
    cases h <;> simp_all [readParameters]

theorem exists_parameterList (h : readParameters location name ts = .ok (ps, rest)) :
    ∃ front, ts = front ++ rest ∧ ParameterList ps front := by
  cases ts with
  | nil => cases h
  | cons opening ts =>
    simp only [readParameters] at h
    split at h
    · cases h
    next ho =>
    have ho : opening.kind = .lparen := not_not.mp ho
    split at h
    · cases h
    next t after =>
    split at h
    next hc =>
      cases h
      exact ⟨[opening, t], rfl, .empty ho hc⟩
    · obtain ⟨front, hfront, hlist⟩ := exists_nameList h
      exact ⟨opening :: front, congrArg (opening :: ·) hfront, .names ho hlist⟩

theorem ofTokens_eq_ok_iff {written : Text} {s : Signature} :
    ofTokens location written ts = .ok s ↔ Spelled s ts := by
  constructor
  · intro h
    cases ts with
    | nil => cases h
    | cons t rest =>
      rw [ofTokens] at h
      split at h
      · cases h
      next hk =>
      have hk : t.kind = .identifier := not_not.mp hk
      split at h
      next hrest =>
        cases h
        rw [List.isEmpty_iff.mp hrest]
        exact .name hk
      · obtain ⟨⟨names, leftover⟩, hread, hend⟩ := bind_eq_ok.mp h
        obtain ⟨front, rfl, hfront⟩ := exists_parameterList hread
        dsimp only at hend
        split at hend
        next hleft =>
          cases hend
          rw [List.isEmpty_iff.mp hleft, List.append_nil]
          exact .list hk hfront
        · cases hend
  · intro h
    cases h with
    | name hk => simp [ofTokens, hk]
    | @list t ps ts hk h =>
      have hread : readParameters location t.text ts = .ok (ps, []) := by
        simpa using h.read []
      have hne : ts.isEmpty = false := by cases h <;> rfl
      simp [ofTokens, hk, hne, hread, bind, Except.bind, pure, Except.pure]

end

/-! ### Failures -/

section
variable {location : Location} {name : Text} {ts : List Token} {e : Error}

theorem kind_of_readNames (h : readNames location name ts = .error e) :
    e.kind = .invalidDefinition := by
  induction ts using List.twoStepInduction with
  | nil => cases h; rfl
  | singleton t =>
    rw [readNames] at h
    split at h <;> (cases h; rfl)
  | cons_cons t separator after ih _ =>
    rw [readNames] at h
    split at h
    · cases h; rfl
    split at h
    · cases h
    split at h
    · cases h; rfl
    · exact ih (map_eq_error.mp h)

theorem kind_of_readParameters (h : readParameters location name ts = .error e) :
    e.kind = .invalidDefinition := by
  cases ts with
  | nil => cases h; rfl
  | cons opening ts =>
    simp only [readParameters] at h
    split at h
    · cases h; rfl
    split at h
    · cases h; rfl
    split at h
    · cases h
    · exact kind_of_readNames h

theorem kind_of_ofTokens {written : Text} (h : ofTokens location written ts = .error e) :
    e.kind = .invalidDefinition := by
  cases ts with
  | nil => cases h; rfl
  | cons t rest =>
    rw [ofTokens] at h
    split at h
    · cases h; rfl
    split at h
    · cases h
    · cases hread : readParameters location t.text rest with
      | error f =>
        rw [hread] at h
        cases h
        exact kind_of_readParameters hread
      | ok x =>
        rw [hread] at h
        simp only [bind, Except.bind] at h
        split at h <;> cases h
        rfl

end

end TextMacros.Signature
