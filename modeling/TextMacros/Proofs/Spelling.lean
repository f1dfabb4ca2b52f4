import Mathlib
import TextMacros.Proofs.Defining
import TextMacros.Proofs.ParameterLists

/-!
# Spelling

The tokens that a signature stands for, and that these and no others are read
as it. Comments and line breaks may stand anywhere between them.
-/

set_option autoImplicit false

namespace TextMacros

namespace Signature

def nameWord (name : Text) : TokenKind × Text := (.identifier, name)

def spelledNames (ps : List Text) : List (TokenKind × Text) :=
  (ps.map nameWord).intersperse (.comma, [CodePoint.comma]) ++ [(.rparen, [CodePoint.closeParen])]

def spelling (s : Signature) : List (TokenKind × Text) :=
  nameWord s.name :: match s.parameters with
    | none => []
    | some ps => (.lparen, [CodePoint.openParen]) :: spelledNames ps

theorem spelledNames_cons (p q : Text) (ps : List Text) : spelledNames (p :: q :: ps) =
    nameWord p :: (.comma, [CodePoint.comma]) :: spelledNames (q :: ps) := by
  simp [spelledNames]

end Signature

/-! ### Symbols -/

/-- The one code point that tokens of this kind consist of, if there is one. -/
def TokenKind.symbol? : TokenKind → Option CodePoint
  | .lparen => some CodePoint.openParen
  | .rparen => some CodePoint.closeParen
  | .comma => some CodePoint.comma
  | _ => none

/-- The kind of a symbol leaves no choice of its text. -/
def SymbolsTold (ts : List Token) : Prop :=
  ∀ t ∈ ts, ∀ c ∈ t.kind.symbol?, t.text = [c]

namespace SymbolsTold
variable {t : Token} {ts : List Token}

theorem word (h : SymbolsTold ts) (ht : t ∈ ts) {kind : TokenKind} (hk : t.kind = kind)
    {c : CodePoint} (hc : kind.symbol? = some c) : t.word = (kind, [c]) :=
  Prod.ext hk (h t ht c (hk ▸ hc))

theorem tail (h : SymbolsTold (t :: ts)) : SymbolsTold ts := fun u hu =>
  h u (List.mem_cons_of_mem t hu)

theorem withoutLayout (h : SymbolsTold ts) : SymbolsTold (withoutLayout ts) := fun u hu =>
  h u (List.mem_of_mem_filter hu)

end SymbolsTold

theorem munch_eq_symbol {c s : CodePoint} {rest : Text} {kind : TokenKind} {n : Nat}
    (h : munch c rest = (kind, n)) (hs : kind.symbol? = some s) : c = s ∧ n = 0 := by
  unfold munch TokenKind.ofSymbol at h
  grind [TokenKind.symbol?]

theorem symbolsTold_lexText (source : Source) (text : Text) :
    SymbolsTold (lexText source text).tokens := by
  intro t ht c hc
  have hstray : ¬IsStray t.kind t.text := fun hq => by simp [hq.1, TokenKind.symbol?] at hc
  have hkind : t.kind ≠ .eol := fun hk => by simp [hk, TokenKind.symbol?] at hc
  obtain ⟨d, body, htext, -, hm⟩ :=
    ((writable_lexText source text t ht hstray).lexical hkind).leads
  obtain ⟨rfl, hbody⟩ := munch_eq_symbol hm hc
  rw [htext, List.length_eq_zero_iff.mp hbody]

namespace Signature
variable {ts : List Token} {ps : List Text}

theorem NameList.words (h : NameList ps ts) (hts : SymbolsTold ts) :
    ts.map Token.word = spelledNames ps := by
  induction h with
  | @last t close hk hc =>
    have hname : t.word = nameWord t.text := Prod.ext hk rfl
    have hclose : close.word = (.rparen, [CodePoint.closeParen]) := hts.word (by simp) hc rfl
    simp [spelledNames, hname, hclose]
  | @more t comma ps ts hk hc h ih =>
    have hname : t.word = nameWord t.text := Prod.ext hk rfl
    have hcomma : comma.word = (.comma, [CodePoint.comma]) := hts.word (by simp) hc rfl
    obtain ⟨q, qs, rfl⟩ : ∃ q qs, ps = q :: qs := by cases h <;> exact ⟨_, _, rfl⟩
    rw [List.map_cons, List.map_cons, ih hts.tail.tail, spelledNames_cons, hname, hcomma]

theorem nameList_of_words {p : Text} (h : ts.map Token.word = spelledNames (p :: ps)) :
    NameList (p :: ps) ts := by
  induction ps generalizing p ts with
  | nil =>
    obtain ⟨t, after, rfl, ht, hafter⟩ := List.map_eq_cons_iff.mp h
    obtain ⟨close, rest, rfl, hc, hrest⟩ := List.map_eq_cons_iff.mp hafter
    obtain rfl := List.map_eq_nil_iff.mp hrest
    obtain ⟨hk, rfl⟩ := Prod.mk.inj ht
    exact .last hk (Prod.mk.inj hc).1
  | cons q ps ih =>
    rw [spelledNames_cons] at h
    obtain ⟨t, after, rfl, ht, hafter⟩ := List.map_eq_cons_iff.mp h
    obtain ⟨comma, rest, rfl, hc, hrest⟩ := List.map_eq_cons_iff.mp hafter
    obtain ⟨hk, rfl⟩ := Prod.mk.inj ht
    exact .more hk (Prod.mk.inj hc).1 (ih hrest)

theorem ParameterList.words (h : ParameterList ps ts) (hts : SymbolsTold ts) :
    ts.map Token.word = (.lparen, [CodePoint.openParen]) :: spelledNames ps := by
  cases h with
  | @empty opening close ho hc =>
    have hopening : opening.word = (.lparen, [CodePoint.openParen]) := hts.word (by simp) ho rfl
    have hclose : close.word = (.rparen, [CodePoint.closeParen]) := hts.word (by simp) hc rfl
    simp [spelledNames, hopening, hclose]
  | @names opening ps ts ho h =>
    have hopening : opening.word = (.lparen, [CodePoint.openParen]) := hts.word (by simp) ho rfl
    rw [List.map_cons, h.words hts.tail, hopening]

theorem parameterList_of_words
    (h : ts.map Token.word = (.lparen, [CodePoint.openParen]) :: spelledNames ps) :
    ParameterList ps ts := by
  obtain ⟨opening, after, rfl, ho, hafter⟩ := List.map_eq_cons_iff.mp h
  cases ps with
  | nil =>
    obtain ⟨close, rest, rfl, hc, hrest⟩ := List.map_eq_cons_iff.mp hafter
    obtain rfl := List.map_eq_nil_iff.mp hrest
    exact .empty (Prod.mk.inj ho).1 (Prod.mk.inj hc).1
  | cons p ps => exact .names (Prod.mk.inj ho).1 (nameList_of_words hafter)

theorem spelled_iff_words {s : Signature} (hts : SymbolsTold ts) :
    Spelled s ts ↔ ts.map Token.word = s.spelling := by
  constructor
  · intro h
    cases h with
    | @name t hk =>
      have hname : t.word = nameWord t.text := Prod.ext hk rfl
      simp [spelling, hname]
    | @list t ps ts hk h =>
      have hname : t.word = nameWord t.text := Prod.ext hk rfl
      rw [List.map_cons, h.words hts.tail, hname]
      rfl
  · intro h
    obtain ⟨name, parameters⟩ := s
    obtain ⟨t, after, rfl, ht, hafter⟩ := List.map_eq_cons_iff.mp h
    obtain ⟨hk, rfl⟩ := Prod.mk.inj ht
    cases parameters with
    | none =>
      obtain rfl := List.map_eq_nil_iff.mp hafter
      exact .name hk
    | some ps => exact .list hk (parameterList_of_words hafter)

/-! ### Parsing -/

/-- A text is read as a signature if its tokens spell it and fails as an invalid definition if
they spell none. Every signature is read back from how it is written. -/
theorem parse_spelled (location : Location) {written : Text} (hw : written.WellFormed)
    {s : Signature} (hn : s.name.isIdentifier)
    (hps : ∀ p ∈ s.parameters.getD [], Text.isIdentifier p) (gap : Nat) :
    (∃ ts, lexText location.source written = ⟨ts, none⟩ ∧
      (∀ found, parse location written = .ok found ↔
        (withoutLayout ts).map Token.word = found.spelling) ∧
      ((∀ other : Signature, (withoutLayout ts).map Token.word ≠ other.spelling) →
        ∃ e, parse location written = .error e ∧ e.kind = .invalidDefinition)) ∧
    parse location (s.written gap) = .ok s := by
  let ts := (lexText location.source written).tokens
  have hread : lexText location.source written = ⟨ts, none⟩ :=
    congrArg (TokenStream.mk ts) (lexRows_failure hw.lines)
  have hparse : parse location written = ofTokens location written (withoutLayout ts) := by
    simp [parse, lexBody, hread, TokenStream.toExcept, Except.map, bind, Except.bind]
  have hiff : ∀ found, parse location written = .ok found ↔
      (withoutLayout ts).map Token.word = found.spelling := fun found => by
    rw [hparse, ofTokens_eq_ok_iff]
    exact spelled_iff_words (symbolsTold_lexText location.source written).withoutLayout
  refine ⟨⟨ts, hread, hiff, fun hnone => ?_⟩, parse_written hn hps gap location⟩
  cases hresult : parse location written with
  | ok found => exact absurd ((hiff found).mp hresult) (hnone found)
  | error e => exact ⟨e, rfl, kind_of_ofTokens (hparse ▸ hresult)⟩

def repeatedSample : Signature := ⟨"F", some ["a", "b", "a"]⟩

/-- A parameter that stands twice is for the check to find, a comma at the end is not. -/
theorem parse_spelled_repeated :
    (Text.WellFormed "F // name\n(a,b\n,a)" ∧ Text.WellFormed "F(a,)" ∧
      repeatedSample.name.isIdentifier ∧
      ∀ p ∈ repeatedSample.parameters.getD [], Text.isIdentifier p) ∧
    parse .definition "F // name\n(a,b\n,a)" = .ok repeatedSample ∧
    (∃ e, parse .definition "F(a,)" = .error e ∧ e.kind = .invalidDefinition) ∧
    repeatedSample.written 1 = "F(a, b, a)" ∧
    parse .definition (repeatedSample.written 1) = .ok repeatedSample := by
  have hw : Text.WellFormed "F // name\n(a,b\n,a)" := by decide
  have hw' : Text.WellFormed "F(a,)" := by decide
  have hn : repeatedSample.name.isIdentifier := by decide
  have hps : ∀ p ∈ repeatedSample.parameters.getD [], Text.isIdentifier p := by decide
  have hwords : (withoutLayout (lexText Location.definition.source
      "F // name\n(a,b\n,a)").tokens).map Token.word = repeatedSample.spelling := by cbv
  have hnone : (parse .definition "F(a,)").toOption = none := by cbv
  obtain ⟨⟨ts, hread, hiff, -⟩, hwritten⟩ := parse_spelled .definition hw hn hps 1
  obtain ⟨⟨_, -, hiff', hfails⟩, -⟩ := parse_spelled .definition hw' hn hps 1
  rw [hread] at hwords
  refine ⟨⟨hw, hw', hn, hps⟩, (hiff _).mpr hwords, hfails fun s hs => ?_, by decide, hwritten⟩
  rw [(hiff' s).mpr hs] at hnone
  cases hnone

end Signature

end TextMacros
