import TextMacros.Engine
import TextMacros.Proofs.Chunking
import TextMacros.Proofs.Layout
import TextMacros.Proofs.Signatures
import TextMacros.Registry.Raw

/-!
# Ways to define a macro

A macro is defined by a pair of written texts, by a directive line or by its
parts. The three ways cut the same body out of what they are given and store
the same definition.
-/

set_option autoImplicit false

namespace TextMacros

/-- The line that defines a macro of a signature, with its line feed or without. -/
def Signature.directiveLine (gap : Nat) (s : Signature) (body : Text) (ended : Bool) : Text :=
  CodePoint.hash :: (Directive.defineWord ++ CodePoint.space ::
    (s.written gap ++ CodePoint.space :: (body ++ if ended then [CodePoint.lineFeed] else [])))

/-! ### Bodies of the same shape -/

theorem bodyShape_moved {ts us : List Token} (h : List.Forall₂ Token.Moved ts us) :
    Macro.bodyShape ts = Macro.bodyShape us := by
  have hshape : ∀ {vs ws : List Token}, List.Forall₂ Token.Moved vs ws →
      vs.map Macro.shape = ws.map Macro.shape := by
    intro vs ws h
    induction h with
    | nil => rfl
    | cons h _ ih => simp only [List.map_cons, Macro.shape, h.kind, h.text, h.spaced, ih]
  cases h with
  | nil => rfl
  | cons h hs => simp only [Macro.bodyShape, h.kind, h.text, hshape hs]

/-- The space before a body does not belong to it, whether its first token stays or not. -/
theorem bodyShape_withoutLayout {ts us : List Token} (h : Shifted ts us) :
    Macro.bodyShape (withoutLayout ts) = Macro.bodyShape (withoutLayout us) := by
  obtain ⟨s, h⟩ := h
  rw [← bodyShape_moved (withoutLayout_moved h)]
  cases ts with
  | nil => rfl
  | cons t ts =>
    simp only [withoutLayout, respace, List.filter_cons, Token.isLayout, Token.withSpacing]
    split <;> rfl

/-! ### Reading a body -/

theorem Text.lineContent_append {front : Text} (h : front.lineContent = front) (t : Text) :
    (front ++ t).lineContent = front ++ t.lineContent := by
  have hfront : (front.reverse.dropWhile isBreak).reverse = front := h
  simp only [lineContent, dropEndWhile, List.reverse_append, List.dropWhile_append]
  split
  · next hnil => rw [hfront, List.isEmpty_iff.mp hnil, List.reverse_nil, List.append_nil]
  · rw [List.reverse_append, List.reverse_reverse]

section
variable {source : Source} {row : Int} {col : Nat}

theorem withoutLayout_append (ts us : List Token) :
    withoutLayout (ts ++ us) = withoutLayout ts ++ withoutLayout us :=
  List.filter_append ..

theorem withoutLayout_rowBreak (line : Text) : withoutLayout (rowBreak source row line) = [] := by
  rw [withoutLayout, List.filter_eq_nil_iff]
  intro t ht
  simp [Token.isLayout, kind_rowBreak t ht]

/-- Nothing but a comment may be left out before the first token of a body. -/
theorem head_body_spaced {line : Text} :
    ∀ t ∈ (withoutLayout (lexLine source row col true line)).head?, t.spaced = some true := by
  induction line generalizing col with
  | nil => simp [lexLine, withoutLayout]
  | cons c rest ih =>
    by_cases hc : c.isBlank
    · rw [lexLine, if_pos hc]
      exact ih
    · rw [lexLine, if_neg hc]
      by_cases hk : (munch c rest).1 = .comment
      · obtain ⟨-, -, hn⟩ := munch_comment hk
        have hblank : ∀ d ∈ rest.drop (munch c rest).2, CodePoint.isBlank d :=
          hn ▸ Text.blank_of_mem_drop_trimEnd rest
        simp [withoutLayout, Token.isLayout, hk, lexLine_blank hblank]
      · have hkeep : ∀ t ts, Token.kind t = (munch c rest).1 →
            withoutLayout (t :: ts) = t :: withoutLayout ts := by
          intro t ts ht
          simp [withoutLayout, Token.isLayout, ht, hk, kind_munch_ne_eol]
        rw [hkeep _ _ rfl]
        simp

theorem lexBody_line {body : Text} (hb : CodePoint.lineFeed ∉ body) (hw : body.WellFormed) :
    lexBody source body = .ok (withoutLayout (lexLine source 0 0 false body.lineContent)) := by
  by_cases hne : body = []
  · rw [hne, show Text.lineContent [] = [] from rfl, lexLine]
    rfl
  · have htext : lexText source body = ⟨lexLine source 0 0 false body.lineContent ++
        rowBreak source 0 body, none⟩ := by
      rw [lexText, lexLines, Text.lines_of_not_mem hne hb, lexRows_cons hw, lexRow_eq hw]
      simp [lexRows, TokenStream.empty]
    rw [lexBody, htext]
    simp [TokenStream.toExcept, Except.map, withoutLayout_append, withoutLayout_rowBreak]

/-! ### Directive lines -/

/-- What a text does that is a directive line and nothing else. -/
theorem process_directive {line : Text} (hl : Text.AreLines [line]) (hw : line.WellFormed)
    {d : Directive} (hd : Directive.ofLine? (lexRow .text 0 line).tokens = some d)
    {r q : Registry} {redefinition : Option Redefinition} (ha : d.apply r = .ok (q, redefinition))
    {c : Config} (hc : c.directives = true) (g : Guard) :
    process c r g (lexText .text line) =
      ⟨rowBreak .text 0 line, none, redefinition.toList, q, g⟩ := by
  have htext : lexText .text line = lexRows .text 0 [line] := by
    simpa using lexText_flatten hl
  have hfailure : (lexRows .text 0 [line]).failure = none :=
    lexRows_failure fun l hl => by rwa [List.mem_singleton.mp hl]
  have hchunks : Chunks.ofLines (tokenLines (lexRows .text 0 [line]).tokens) =
      .cut [] d (rowBreak .text 0 line) (.last []) := by
    rw [ofLines_lexRows hl hw, hd]
    rfl
  have hnil : ∀ p : Registry, expand p c.depth 0 g [] = ⟨.ok [], g⟩ := fun p => by
    rw [expand, expandFrom]
  rw [process, if_pos hc, htext, hfailure, hchunks]
  simp [Chunks.process, hnil, ha, Processed.ofExpanded, Processed.after]

theorem lexLine_space {spaced : Bool} (more : Text) :
    lexLine source row col spaced (CodePoint.space :: more) =
      lexLine source row (col + 1) true more := by
  rw [lexLine, if_pos (by decide)]

namespace Signature
variable (s : Signature) (gap : Nat) (body : Text) (ended : Bool)

theorem directiveLine_eq : s.directiveLine gap body ended =
    ([CodePoint.hash] ++ Directive.defineWord ++ [CodePoint.space] ++ s.written gap ++
      [CodePoint.space]) ++ (body ++ if ended then [CodePoint.lineFeed] else []) := by
  simp [directiveLine]

/-- Only at the end of the body something is stripped. -/
theorem lineContent_directiveLine : (s.directiveLine gap body ended).lineContent =
    [CodePoint.hash] ++ (Directive.defineWord ++ CodePoint.space ::
      (s.written gap ++ CodePoint.space :: body.lineContent)) := by
  have hfront : ∀ x : Text, (x ++ [CodePoint.space]).lineContent = x ++ [CodePoint.space] :=
    fun x => by
      have hspace : Text.isBreak CodePoint.space = false := by decide
      simp [Text.lineContent, Text.dropEndWhile, hspace]
  have hbody : Text.lineContent (body ++ if ended then [CodePoint.lineFeed] else []) =
      body.lineContent := by
    cases ended with
    | false => rw [if_neg (by simp), List.append_nil]
    | true => exact Text.lineContent_terminated body
  rw [directiveLine_eq, Text.lineContent_append (hfront _), hbody]
  simp

variable {s body}

theorem Valid.wellFormed_directiveLine (hs : s.Valid) (hw : body.WellFormed) :
    (s.directiveLine gap body ended).WellFormed := by
  have hend : Text.WellFormed (if ended then [CodePoint.lineFeed] else []) := by
    cases ended <;> decide
  have hsignature : ∀ c ∈ s.written gap, CodePoint.isSurrogate c = false :=
    fun c hc => (Signature.inline_written hs.name hs.parameters gap c hc).1
  have hstart : ∀ c ∈ [CodePoint.hash] ++ Directive.defineWord ++ [CodePoint.space],
      CodePoint.isSurrogate c = false := by decide
  rw [directiveLine_eq]
  simp only [Text.WellFormed, List.forall_mem_append] at hw hend hstart ⊢
  exact ⟨⟨⟨hstart, hsignature⟩, by decide⟩, hw, hend⟩

theorem Valid.areLines_directiveLine (hs : s.Valid) (hb : CodePoint.lineFeed ∉ body) :
    Text.AreLines [s.directiveLine gap body ended] := by
  have hsignature : CodePoint.lineFeed ∉ s.written gap := by
    intro h
    exact absurd (Signature.inline_written hs.name hs.parameters gap _ h).2 (by decide)
  have hstart : CodePoint.lineFeed ∉
      [CodePoint.hash] ++ Directive.defineWord ++ [CodePoint.space] := by
    decide
  have hfront : CodePoint.lineFeed ∉ [CodePoint.hash] ++ Directive.defineWord ++
      [CodePoint.space] ++ s.written gap ++ [CodePoint.space] ++ body := by
    simp only [List.mem_append, not_or] at hstart ⊢
    exact ⟨⟨⟨hstart, hsignature⟩, by decide⟩, hb⟩
  rw [directiveLine_eq, ← List.append_assoc]
  cases ended with
  | false => exact .last (by simp) (by simpa using hfront)
  | true => exact .cons ⟨_, hfront, rfl⟩ .nil

end Signature

/-- The tokens of the signature stand between the two words of the directive and its body. -/
theorem exists_directive (row : Int) (gap : Nat) {s : Signature} (hs : s.Valid) {body : Text}
    (hw : body.WellFormed) (ended : Bool) :
    ∃ d col, Directive.ofLine? (lexRow .text row (s.directiveLine gap body ended)).tokens = some d ∧
      d.isDefinition = true ∧ d.definition = .ok ⟨s.name, s.parameters,
        withoutLayout (lexLine .text row col true body.lineContent), d.keyword.location⟩ := by
  have hline := hs.wellFormed_directiveLine gap ended hw
  have hcontent := s.lineContent_directiveLine gap body ended
  obtain ⟨ts, hlayout, hspells, hts⟩ :=
    Signature.exists_spells .text row 8 true gap hs.name hs.parameters
  have hword : Leads .identifier Directive.defineWord
      (CodePoint.space :: (s.written gap ++ CodePoint.space :: body.lineContent)) :=
    leads_identifier (by decide) fun c hc => by obtain rfl := Option.some.inj hc; rfl
  have hname : ∀ c ∈ (CodePoint.space :: body.lineContent).head?,
      CodePoint.continuesIdentifier c = false := fun c hc => by
    obtain rfl := Option.some.inj hc
    rfl
  let mark : Token := ⟨.punctuation, [CodePoint.hash], Source.text.locate row 0, some (row > 0)⟩
  let keyword : Token := ⟨.identifier, Directive.defineWord, Source.text.locate row 1, some false⟩
  let col := 8 + (s.written gap).length + 1
  have htokens : (lexRow .text row (s.directiveLine gap body ended)).tokens =
      mark :: keyword :: (ts ++ lexLine .text row col true body.lineContent ++
        rowBreak .text row (s.directiveLine gap body ended)) := by
    have hcol : 0 + [CodePoint.hash].length + Directive.defineWord.length + 1 = 8 := by decide
    rw [lexRow_eq hline, hcontent, lexLine_leads (leads_hash _), lexLine_leads hword, lexLine_space,
      hcol, hts _ hname, lexLine_space]
    simp [mark, keyword, col]
  refine ⟨⟨true, keyword, ts ++ withoutLayout (lexLine .text row col true body.lineContent)⟩, col,
    ?_, rfl, ?_⟩
  · have hkeep : withoutLayout ts = ts := List.filter_eq_self.mpr (by simpa using hlayout)
    rw [htokens]
    simp [Directive.ofLine?, mark, keyword, withoutLayout_append, withoutLayout_rowBreak, hkeep]
  · exact hspells.definition head_body_spaced rfl

end

/-! ### Written signatures and definitions that pass the check -/

theorem Text.lineContent_of_inline {t : Text} (h : ∀ c ∈ t, isBreak c = false) :
    t.lineContent = t := by
  have hself : List.rdropWhile isBreak t = t := by
    rw [List.rdropWhile_eq_self_iff]
    intro hne
    simp [h _ (List.getLast_mem hne)]
  exact hself

theorem Signature.parse_written {s : Signature} (hn : s.name.isIdentifier)
    (hps : ∀ p ∈ s.parameters.getD [], Text.isIdentifier p) (gap : Nat) (location : Location) :
    parse location (s.written gap) = .ok s := by
  have hinline := inline_written hn hps gap
  have hbreak : CodePoint.lineFeed ∉ s.written gap := fun h =>
    absurd (hinline _ h).2 (by decide)
  have hcontent := Text.lineContent_of_inline fun c hc => (hinline c hc).2
  obtain ⟨ts, hlayout, hspells, hts⟩ := exists_spells location.source 0 0 false gap hn hps
  have htokens : lexLine location.source 0 0 false (s.written gap) = ts := by
    simpa [lexLine] using hts [] (by simp)
  have hkeep : withoutLayout ts = ts := List.filter_eq_self.mpr (by simpa using hlayout)
  rw [parse, lexBody_line hbreak fun c hc => (hinline c hc).1, hcontent, htokens, hkeep]
  exact hspells.ofTokens _

theorem Registry.define_of_valid (r : Registry) {m : Macro} (h : m.signature.Valid) :
    r.define m = .ok (r.insert m, r.redefinition m) := by
  rw [define, Macro.check_eq_ok.mpr h]
  rfl

theorem Registry.defineBody_of_valid (r : Registry) {s : Signature} (h : s.Valid) {body : Body}
    {ts : List Token} (hb : body.read = .ok ts) (location : Location) :
    r.defineBody s.name s.parameters body location =
      .ok (r.insert ⟨s.name, s.parameters, ts, location⟩,
        r.redefinition ⟨s.name, s.parameters, ts, location⟩) := by
  rw [defineBody, hb]
  exact r.define_of_valid h

theorem Registry.defineRaw_of_valid (r : Registry) {s : Signature} (h : s.Valid) (gap : Nat)
    {location : Location} {body : Text} {ts : List Token}
    (hb : (Body.text location.source body).read = .ok ts) :
    r.defineRaw location (s.written gap) body =
      .ok (r.insert ⟨s.name, s.parameters, ts, location⟩) := by
  simp only [defineRaw, Signature.parse_written h.name h.parameters, bind, Except.bind,
    r.defineBody_of_valid h hb]
  rfl

theorem Directive.apply_of_definition {d : Directive} (hd : d.isDefinition = true) {m : Macro}
    (hm : d.definition = .ok m) (h : m.signature.Valid) (r : Registry) :
    d.apply r = .ok (r.insert m, r.redefinition m) := by
  rw [apply, if_pos hd, hm]
  exact r.define_of_valid h

/-! ### Agreement -/

/-- The registry `q` is `r` with a macro stored under its name. -/
def Registry.Stores (q r : Registry) (m : Macro) : Prop :=
  ∀ name, q.lookup name = if m.name = name then some m else r.lookup name

/-- The name, the parameters and the shape of the body are the same in whichever
of the three ways a macro is defined, even if a parenthesis begins the body, and
it is what is found under that name. -/
theorem definitions_agree {s : Signature} (hs : s.Valid) (gap : Nat) {body : Text}
    (hb : CodePoint.lineFeed ∉ body) (hw : body.WellFormed) {location : Location}
    (hl : location.source ≠ .text) {c : Config} (hc : c.directives = true) (r : Registry)
    (g : Guard) (ended : Bool) :
    ∃ raw directed given : Macro,
      Registry.ofRawAt location [(s.written gap, body)] = .ok (.ok (Registry.empty.insert raw)) ∧
      (∃ kept, process c r g (lexText .text (s.directiveLine gap body ended)) =
        ⟨kept, none, (r.redefinition directed).toList, r.insert directed, g⟩) ∧
      r.defineText s.name s.parameters body = .ok (r.insert given, r.redefinition given) ∧
      (raw.signature = s ∧ directed.signature = s ∧ given.signature = s) ∧
      ((Registry.empty.insert raw).Stores .empty raw ∧ (r.insert directed).Stores r directed ∧
        (r.insert given).Stores r given) ∧
      raw.sameDefinition directed ∧ directed.sameDefinition given ∧ raw.sameDefinition given := by
  have hlines := hs.areLines_directiveLine gap ended hb
  have hwell := hs.wellFormed_directiveLine gap ended hw
  obtain ⟨d, col, hd, hdefines, hdefinition⟩ := exists_directive 0 gap hs hw ended
  let cut (source : Source) (col : Nat) (spaced : Bool) : List Token :=
    withoutLayout (lexLine source 0 col spaced body.lineContent)
  have hbody : ∀ source, (Body.text source body).read = .ok (cut source 0 false) :=
    fun source => lexBody_line hb hw
  have hshape : ∀ source source' col col' spaced spaced',
      Macro.bodyShape (cut source col spaced) = Macro.bodyShape (cut source' col' spaced') :=
    fun _ _ _ _ _ _ => bodyShape_withoutLayout (lexLine_shifted ..)
  let raw : Macro := ⟨s.name, s.parameters, cut location.source 0 false, location⟩
  let directed : Macro := ⟨s.name, s.parameters, cut .text col true, d.keyword.location⟩
  let given : Macro := ⟨s.name, s.parameters, cut .definition 0 false, .definition⟩
  have hraw : Registry.ofRaw location [(s.written gap, body)] =
      .ok (Registry.empty.insert raw) := by
    simp only [Registry.ofRaw, List.foldlM, Registry.empty.defineRaw_of_valid hs gap (hbody _)]
    rfl
  refine ⟨raw, directed, given, ?_, ⟨_, process_directive hlines hwell hd
    (Directive.apply_of_definition hdefines hdefinition hs r) hc g⟩,
    r.defineBody_of_valid hs (hbody _) _, ⟨rfl, rfl, rfl⟩, ⟨Registry.empty.lookup_insert raw,
      r.lookup_insert directed, r.lookup_insert given⟩, ?_, ?_, ?_⟩
  · rw [Registry.ofRawAt, if_neg hl, hraw]
  · simpa [Macro.sameDefinition, raw, directed] using hshape location.source .text 0 col false true
  · simpa [Macro.sameDefinition, directed, given] using hshape .text .definition col 0 true false
  · simpa [Macro.sameDefinition, raw, given] using
      hshape location.source .definition 0 0 false false

/-- A list that does not touch the name, a quote that opens nothing, a comment
and a carriage return. -/
def looseBody : Text := "(a) \"a // b\r"

theorem definitions_agree_loose :
    (⟨"F", none⟩ : Signature).Valid ∧ CodePoint.lineFeed ∉ looseBody ∧ looseBody.WellFormed ∧
      Location.commandLine.source ≠ .text ∧ (⟨200, true⟩ : Config).directives = true ∧
      ∃ raw directed given : Macro,
        Registry.ofRawAt .commandLine [(Text.ofString "F", looseBody)] =
          .ok (.ok (Registry.empty.insert raw)) ∧
        (∃ kept, process ⟨200, true⟩ .empty [] (lexText .text "#define F (a) \"a // b\r\n") =
          ⟨kept, none, [], Registry.empty.insert directed, []⟩) ∧
        Registry.empty.defineText "F" none looseBody = .ok (Registry.empty.insert given, none) ∧
        (raw.parameters = none ∧ directed.parameters = none ∧ given.parameters = none) ∧
        ((Registry.empty.insert raw).lookup "F" = some raw ∧
          (Registry.empty.insert directed).lookup "F" = some directed ∧
          (Registry.empty.insert given).lookup "F" = some given) ∧
        raw.sameDefinition directed ∧ directed.sameDefinition given ∧ raw.sameDefinition given := by
  have hs : (⟨"F", none⟩ : Signature).Valid := ⟨by decide, by decide, by decide⟩
  have hb : CodePoint.lineFeed ∉ looseBody := by decide
  have hw : looseBody.WellFormed := by decide
  have hl : Location.commandLine.source ≠ .text := by decide
  have hline : Signature.directiveLine 0 ⟨"F", none⟩ looseBody true =
      "#define F (a) \"a // b\r\n" := by decide
  obtain ⟨raw, directed, given, hraw, hdirected, hgiven, hsignatures, hstores, hsame⟩ :=
    definitions_agree hs 0 hb hw hl (c := ⟨200, true⟩) rfl .empty [] true
  rw [hline] at hdirected
  obtain ⟨hr, hd, hg⟩ := hsignatures
  have hfound : ∀ {q : Registry} {m : Macro}, m.signature = ⟨"F", none⟩ →
      q.Stores .empty m → q.lookup "F" = some m := by
    intro q m hm hq
    have hname : m.name = Text.ofString "F" := congrArg Signature.name hm
    rw [hq, if_pos hname]
  exact ⟨hs, hb, hw, hl, rfl, raw, directed, given, hraw, hdirected, hgiven,
    ⟨congrArg Signature.parameters hr, congrArg Signature.parameters hd,
      congrArg Signature.parameters hg⟩, ⟨hfound hr hstores.1, hfound hd hstores.2.1,
        hfound hg hstores.2.2⟩, hsame⟩

end TextMacros
