import TextMacros.Directive
import TextMacros.Proofs.ParameterLists
import TextMacros.Proofs.Words

/-!
# Written signatures

The signatures that a macro may have are those that its check accepts. One
that is written down, with any number of spaces after its commas, is read as
itself, alone or with something behind it that its last name cannot grow into.
-/

set_option autoImplicit false

namespace TextMacros

def Macro.signature (m : Macro) : Signature := ⟨m.name, m.parameters⟩

namespace Signature

/-- A name with parameters, all identifiers, and no parameter twice. -/
structure Valid (s : Signature) : Prop where
  name : s.name.isIdentifier
  parameters : ∀ p ∈ s.parameters.getD [], p.isIdentifier
  distinct : (s.parameters.getD []).Nodup

/-- Names separated by commas with `gap` spaces after each of them, and the
parenthesis that closes the list. -/
def writtenNames (gap : Nat) (ps : List Text) : Text :=
  List.intercalate (CodePoint.comma :: List.replicate gap CodePoint.space) ps ++
    [CodePoint.closeParen]

/-- A parameter list touches the name. -/
def written (gap : Nat) (s : Signature) : Text :=
  match s.parameters with
  | none => s.name
  | some ps => s.name ++ CodePoint.openParen :: writtenNames gap ps

end Signature

/-! ### What is written -/

theorem CodePoint.inline_of_continuesIdentifier {c : Nat} (h : continuesIdentifier c) :
    isSurrogate c = false ∧ Text.isBreak c = false := by
  simp only [continuesIdentifier, startsIdentifier, isLetter, isCapital, isDigit, CodePoint,
    underscore, Bool.or_eq_true, Bool.and_eq_true, decide_eq_true_eq] at h
  simp only [isSurrogate, Text.isBreak, carriageReturn, lineFeed, CodePoint,
    Bool.and_eq_false_iff, Bool.or_eq_false_iff, decide_eq_false_iff_not]
  omega

theorem Text.inline_of_isIdentifier {name : Text} (h : name.isIdentifier) :
    ∀ c ∈ name, CodePoint.isSurrogate c = false ∧ isBreak c = false := by
  intro c hc
  apply CodePoint.inline_of_continuesIdentifier
  cases name with
  | nil => cases hc
  | cons d ds =>
    obtain ⟨hd, hds⟩ : CodePoint.startsIdentifier d ∧
        ∀ e ∈ ds, CodePoint.continuesIdentifier e := by
      simpa [isIdentifier] using h
    cases hc with
    | head => simp [CodePoint.continuesIdentifier, hd]
    | tail _ hc => exact hds c hc

namespace Signature
variable {gap : Nat}

theorem writtenNames_one (p : Text) : writtenNames gap [p] = p ++ [CodePoint.closeParen] := by
  simp [writtenNames]

theorem writtenNames_cons (p q : Text) (ps : List Text) : writtenNames gap (p :: q :: ps) =
    (p ++ [CodePoint.comma]) ++
      (List.replicate gap CodePoint.space ++ writtenNames gap (q :: ps)) := by
  simp [writtenNames]

theorem forall_writtenNames {P : CodePoint → Prop} (hclose : P CodePoint.closeParen)
    (hcomma : P CodePoint.comma) (hspace : P CodePoint.space) {ps : List Text}
    (hps : ∀ p ∈ ps, ∀ c ∈ p, P c) : ∀ c ∈ writtenNames gap ps, P c := by
  induction ps with
  | nil => simpa [writtenNames] using hclose
  | cons p ps ih =>
    have hp := hps p List.mem_cons_self
    have hrest := ih fun q hq => hps q (List.mem_cons_of_mem p hq)
    cases ps with
    | nil =>
      rw [writtenNames_one, List.forall_mem_append]
      exact ⟨hp, by simpa using hclose⟩
    | cons q ps =>
      rw [writtenNames_cons, List.forall_mem_append, List.forall_mem_append, List.forall_mem_append]
      refine ⟨⟨hp, by simpa using hcomma⟩, fun c hc => ?_, hrest⟩
      rwa [List.eq_of_mem_replicate hc]

/-- A written signature stays on its line. -/
theorem inline_written {s : Signature} (hn : s.name.isIdentifier)
    (hps : ∀ p ∈ s.parameters.getD [], Text.isIdentifier p) (gap : Nat) :
    ∀ c ∈ s.written gap, CodePoint.isSurrogate c = false ∧ Text.isBreak c = false := by
  obtain ⟨name, parameters⟩ := s
  cases parameters with
  | none => exact Text.inline_of_isIdentifier hn
  | some ps =>
    rw [written, List.forall_mem_append, List.forall_mem_cons]
    refine ⟨Text.inline_of_isIdentifier hn, by decide,
      forall_writtenNames ?_ ?_ ?_ fun p hp => ?_⟩
    · decide
    · decide
    · decide
    · exact Text.inline_of_isIdentifier (hps p hp)

end Signature

/-! ### What the check accepts -/

namespace Macro
variable {m : Macro}

theorem checkParameters_eq_ok {seen ps : List Text} : m.checkParameters seen ps = .ok () ↔
    (∀ p ∈ ps, p.isIdentifier) ∧ ps.Nodup ∧ ∀ p ∈ ps, p ∉ seen := by
  induction ps generalizing seen with
  | nil => simp [checkParameters]
  | cons p ps ih =>
    rw [checkParameters]
    by_cases hp : p.isIdentifier
    · by_cases hs : p ∈ seen
      · simp [hp, hs]
      · simp only [hp, hs, Bool.not_true, Bool.false_eq_true, if_false, ih, List.mem_cons,
          forall_eq_or_imp, List.nodup_cons, not_false_eq_true, true_and, not_or]
        grind
    · simp [hp]

theorem check_eq_ok : m.check = .ok () ↔ m.signature.Valid := by
  unfold check
  by_cases hn : m.name.isIdentifier
  · rw [if_neg (by simp [hn]), checkParameters_eq_ok]
    constructor
    · rintro ⟨hp, hd, -⟩
      exact ⟨hn, hp, hd⟩
    · intro h
      exact ⟨h.parameters, h.distinct, by simp⟩
  · rw [if_pos (by simp [hn])]
    constructor
    · intro h
      cases h
    · intro h
      exact absurd h.name hn

end Macro

/-! ### Reading one lexeme after the other -/

theorem CodePoint.other_of_startsIdentifier {c : Nat} (h : startsIdentifier c) :
    c ≠ slash ∧ c ≠ doubleQuote ∧ c ≠ singleQuote ∧ isDigit c = false := by
  simp only [startsIdentifier, isLetter, isCapital, CodePoint, underscore, Bool.or_eq_true,
    Bool.and_eq_true, decide_eq_true_eq] at h
  simp only [isDigit, CodePoint, slash, doubleQuote, singleQuote, Bool.and_eq_false_iff,
    decide_eq_false_iff_not]
  omega

section
variable {source : Source} {row : Int} {col : Nat} {spaced : Bool}

theorem lexLine_leads {kind : TokenKind} {text more : Text} (h : Leads kind text more) :
    lexLine source row col spaced (text ++ more) =
      ⟨kind, text, source.locate row col, some spaced⟩ ::
        lexLine source row (col + text.length) false more := by
  obtain ⟨c, body, rfl, hc, hm⟩ := h
  rw [List.cons_append, lexLine, if_neg (by simp [hc]), hm]
  simp only [List.take_left, List.drop_left, List.length_cons, Nat.add_assoc, Nat.add_comm 1]

theorem lexLine_gap (gap : Nat) (more : Text) :
    lexLine source row col spaced (List.replicate gap CodePoint.space ++ more) =
      lexLine source row (col + gap) (spaced || gap > 0) more := by
  induction gap generalizing col spaced with
  | zero => simp
  | succ gap ih =>
    rw [List.replicate_succ, List.cons_append, lexLine, if_pos (by decide), ih, Nat.add_assoc,
      Nat.add_comm 1]
    simp

/-- A name ends where a code point follows that it cannot grow into. -/
theorem leads_identifier {name more : Text} (h : name.isIdentifier)
    (hm : ∀ c ∈ more.head?, CodePoint.continuesIdentifier c = false) :
    Leads .identifier name more := by
  cases name with
  | nil => cases h
  | cons c cs =>
    obtain ⟨hc, hcs⟩ : c.startsIdentifier ∧ ∀ d ∈ cs, CodePoint.continuesIdentifier d := by
      simpa [Text.isIdentifier] using h
    have hrun : (cs ++ more).takeWhile CodePoint.continuesIdentifier = cs := by
      rw [List.takeWhile_append_of_pos hcs]
      cases more with
      | nil => simp
      | cons d more => simp [hm d rfl]
    have hblank : CodePoint.isBlank c = false := by
      cases hb : CodePoint.isBlank c with
      | false => rfl
      | true =>
        have hn := CodePoint.not_continues_of_blank hb
        simp [CodePoint.continuesIdentifier, hc] at hn
    refine ⟨c, cs, rfl, hblank, ?_⟩
    obtain ⟨hslash, hdouble, hsingle, hdigit⟩ := CodePoint.other_of_startsIdentifier hc
    rw [munch, if_neg (by simp [hslash]), if_neg hdouble, if_neg hsingle,
      if_neg (by simp [hdigit]), if_pos hc, hrun]

/-- Reading `text` yields `ts`, whatever stands behind it. -/
def Yields (source : Source) (row : Int) (col : Nat) (spaced : Bool) (text : Text)
    (ts : List Token) : Prop :=
  ∀ more, lexLine source row col spaced (text ++ more) =
    ts ++ lexLine source row (col + text.length) false more

theorem Yields.append {text more : Text} {ts us : List Token}
    (h : Yields source row col spaced text ts)
    (h' : Yields source row (col + text.length) false more us) :
    Yields source row col spaced (text ++ more) (ts ++ us) := by
  intro rest
  rw [List.append_assoc, h, h', List.length_append, List.append_assoc, Nat.add_assoc]

theorem Yields.gap {gap : Nat} {text : Text} {ts : List Token}
    (h : Yields source row (col + gap) (spaced || gap > 0) text ts) :
    Yields source row col spaced (List.replicate gap CodePoint.space ++ text) ts := by
  intro rest
  rw [List.append_assoc, lexLine_gap, h, List.length_append, List.length_replicate, Nat.add_assoc]

theorem yields_symbol {c : CodePoint} {kind : TokenKind} (hc : ∀ more, Leads kind [c] more) :
    Yields source row col spaced [c] [⟨kind, [c], source.locate row col, some spaced⟩] :=
  fun more => lexLine_leads (hc more)

/-- A name with a symbol that ends it. -/
theorem yields_name {name : Text} (h : name.isIdentifier) {c : CodePoint} {kind : TokenKind}
    (hc : ∀ more, Leads kind [c] more) (hn : c.continuesIdentifier = false) :
    Yields source row col spaced (name ++ [c])
      [⟨.identifier, name, source.locate row col, some spaced⟩,
        ⟨kind, [c], source.locate row (col + name.length), some false⟩] := by
  intro more
  have hname : Leads .identifier name ([c] ++ more) := leads_identifier h (by simpa using hn)
  rw [List.append_assoc, lexLine_leads hname, lexLine_leads (hc more), List.length_append]
  simp [Nat.add_assoc]

theorem leads_openParen (more : Text) : Leads .lparen [CodePoint.openParen] more :=
  ⟨_, [], rfl, rfl, rfl⟩

theorem leads_closeParen (more : Text) : Leads .rparen [CodePoint.closeParen] more :=
  ⟨_, [], rfl, rfl, rfl⟩

theorem leads_comma (more : Text) : Leads .comma [CodePoint.comma] more := ⟨_, [], rfl, rfl, rfl⟩

theorem leads_hash (more : Text) : Leads .punctuation [CodePoint.hash] more :=
  ⟨_, [], rfl, rfl, rfl⟩

end

/-! ### Reading signatures -/

namespace Signature

section
variable {location : Location} {name : Text}

/-- Tokens that tell a signature, before whatever follows them. -/
inductive Spells : Signature → List Token → Prop where
  | name {t : Token} (hk : t.kind = .identifier) : Spells ⟨t.text, none⟩ [t]
  | list {t : Token} {ts : List Token} {ps : List Text} (hk : t.kind = .identifier)
      (ho : Directive.opensParameters ts)
      (hr : ∀ location rest, readParameters location t.text (ts ++ rest) = .ok (ps, rest)) :
      Spells ⟨t.text, some ps⟩ (t :: ts)

theorem Spells.ofTokens {s : Signature} {ts : List Token} (h : Spells s ts) (written : Text) :
    ofTokens location written ts = .ok s := by
  cases h with
  | name hk => simp [Signature.ofTokens, hk]
  | @list t ts ps hk ho hr =>
    have hne : ts.isEmpty = false := by
      cases ts with
      | nil => cases ho
      | cons u us => rfl
    have hread := hr location []
    rw [List.append_nil] at hread
    simp [Signature.ofTokens, hk, hne, hread, bind, Except.bind, pure, Except.pure]

/-- A parenthesis that touches the name begins a list of parameters, none other does. -/
theorem Spells.definition {s : Signature} {ts body : List Token} (h : Spells s ts)
    (hb : ∀ u ∈ body.head?, u.spaced = some true) {d : Directive} (hd : d.operands = ts ++ body) :
    d.definition = .ok ⟨s.name, s.parameters, body, d.keyword.location⟩ := by
  cases h with
  | @name t hk =>
    have ho : Directive.opensParameters body = false := by
      cases body with
      | nil => rfl
      | cons u us => simp [Directive.opensParameters, hb u rfl]
    simp [Directive.definition, Directive.nameToken, hd, hk, ho, bind, Except.bind, pure,
      Except.pure]
  | @list t ts ps hk ho hr =>
    have ho' : Directive.opensParameters (ts ++ body) = true := by
      cases ts with
      | nil => cases ho
      | cons u us => exact ho
    simp [Directive.definition, Directive.nameToken, hd, hk, ho', hr, bind, Except.bind, pure,
      Except.pure]

end

section
variable (source : Source) (row : Int) (col : Nat) (spaced : Bool)

theorem exists_names (gap : Nat) {p : Text} {ps : List Text} (hp : p.isIdentifier)
    (hps : ∀ q ∈ ps, Text.isIdentifier q) : ∃ ts, (∀ t ∈ ts, t.isLayout = false) ∧
      Yields source row col spaced (writtenNames gap (p :: ps)) ts ∧ NameList (p :: ps) ts := by
  induction ps generalizing p col spaced with
  | nil =>
    rw [writtenNames_one]
    refine ⟨_, ?_, yields_name hp leads_closeParen (by decide), ?_⟩
    · simp [Token.isLayout]
    · exact .last (t := ⟨.identifier, p, _, _⟩) rfl rfl
  | cons q ps ih =>
    obtain ⟨ts, hlayout, hts, hlist⟩ := ih (col + (p ++ [CodePoint.comma]).length + gap)
      (false || gap > 0) (hps q (by simp)) fun r hr => hps r (by simp [hr])
    rw [writtenNames_cons]
    refine ⟨_, ?_, (yields_name hp leads_comma (by decide)).append hts.gap, ?_⟩
    · simpa [Token.isLayout] using hlayout
    · exact .more (t := ⟨.identifier, p, _, _⟩) rfl rfl hlist

theorem exists_parameters (gap : Nat) {ps : List Text} (hps : ∀ p ∈ ps, Text.isIdentifier p) :
    ∃ t ts, (∀ u ∈ t :: ts, u.isLayout = false) ∧ t.kind = .lparen ∧ t.spaced = some spaced ∧
      Yields source row col spaced (CodePoint.openParen :: writtenNames gap ps) (t :: ts) ∧
      ParameterList ps (t :: ts) := by
  cases ps with
  | nil =>
    refine ⟨_, _, ?_, ?_, ?_,
      (yields_symbol leads_openParen).append (yields_symbol leads_closeParen), ?_⟩
    · simp [Token.isLayout]
    · rfl
    · rfl
    · exact .empty rfl rfl
  | cons p ps =>
    have hp : p.isIdentifier := hps p List.mem_cons_self
    obtain ⟨ts, hlayout, hts, hlist⟩ := exists_names source row (col + 1) false gap hp
      fun q hq => hps q (List.mem_cons_of_mem p hq)
    refine ⟨_, _, ?_, ?_, ?_, (yields_symbol leads_openParen).append hts, ?_⟩
    · simpa [Token.isLayout] using hlayout
    · rfl
    · rfl
    · exact .names rfl hlist

/-- A written signature is read as what it is written for, unless its name goes on. -/
theorem exists_spells (gap : Nat) {s : Signature} (hn : s.name.isIdentifier)
    (hps : ∀ p ∈ s.parameters.getD [], Text.isIdentifier p) :
    ∃ ts, (∀ t ∈ ts, t.isLayout = false) ∧ Spells s ts ∧
      ∀ more : Text, (∀ c ∈ more.head?, CodePoint.continuesIdentifier c = false) →
        lexLine source row col spaced (s.written gap ++ more) =
          ts ++ lexLine source row (col + (s.written gap).length) false more := by
  obtain ⟨name, parameters⟩ := s
  have hname : name.isIdentifier := hn
  let t : Token := ⟨.identifier, name, source.locate row col, some spaced⟩
  cases parameters with
  | none =>
    refine ⟨[t], by simp [t, Token.isLayout], .name (t := t) rfl, fun more hm => ?_⟩
    exact lexLine_leads (leads_identifier hname hm)
  | some ps =>
    have hps : ∀ p ∈ ps, Text.isIdentifier p := hps
    obtain ⟨u, us, hlayout, hk, hspaced, hus, hlist⟩ := exists_parameters source row
      (col + name.length) false gap hps
    have hopens : Directive.opensParameters (u :: us) := by
      simp [Directive.opensParameters, hk, hspaced]
    refine ⟨t :: u :: us, ?_, .list (t := t) rfl hopens fun _ rest => hlist.read rest,
      fun more _ => ?_⟩
    · simpa [t, Token.isLayout] using hlayout
    · have hlead : Leads .identifier name (CodePoint.openParen :: writtenNames gap ps ++ more) :=
        leads_identifier hname fun c hc => by obtain rfl := Option.some.inj hc; rfl
      simp only [written, List.append_assoc]
      rw [lexLine_leads hlead, hus more, List.length_append, Nat.add_assoc]
      rfl

end

end Signature

end TextMacros
