import Mathlib
import TextMacros.Proofs.Keeping
import TextMacros.Proofs.ParameterLists
import TextMacros.Proofs.Seams

/-!
# Pasting

Whether processing a text glues tokens together is seen in its result: the
result reads back exactly if no token in it that is written without a space
merges with the token before it. A replaced name that touches its left
neighbour hands that on to what replaces it, and the two may merge.
-/

set_option autoImplicit false

namespace TextMacros

namespace Signature
variable {location : Location} {name : Text}

theorem readParameters_suffix {ts : List Token} {names : List Text} {rest : List Token}
    (h : readParameters location name ts = .ok (names, rest)) : rest <:+ ts := by
  obtain ⟨front, rfl, -⟩ := exists_parameterList h
  exact List.suffix_append front rest

end Signature

namespace Directive
variable {d : Directive}

theorem nameToken_eq_ok {t : Token} {rest : List Token} (h : d.nameToken = .ok (t, rest)) :
    d.operands = t :: rest := by
  unfold nameToken at h
  split at h
  · cases h
  · split at h
    · cases h
      assumption
    · cases h

/-- The body of a definition is what its operands end with. -/
theorem definition_suffix {m : Macro} (h : d.definition = .ok m) : m.body <:+ d.operands := by
  obtain ⟨⟨t, rest⟩, hn, h⟩ := bind_eq_ok.mp h
  rw [nameToken_eq_ok hn]
  refine List.IsSuffix.trans ?_ (List.suffix_cons t rest)
  dsimp only at h
  by_cases hp : opensParameters rest
  · rw [if_pos hp] at h
    obtain ⟨⟨names, body⟩, hr, h⟩ := bind_eq_ok.mp h
    cases h
    exact Signature.readParameters_suffix hr
  · rw [if_neg hp] at h
    cases h
    exact List.suffix_refl _

theorem operands_eq {ts : List Token} (h : ofLine? ts = some d) :
    ∃ mark keyword rest, ts = mark :: keyword :: rest ∧ d.operands = withoutLayout rest := by
  unfold ofLine? at h
  split at h
  next mark keyword rest =>
    refine ⟨mark, keyword, rest, rfl, ?_⟩
    split at h
    · split at h
      · cases h
        rfl
      · split at h
        · cases h
          rfl
        · cases h
    · cases h
  · cases h

/-- A directive changes no definition but the one that it makes. -/
theorem apply_lookup {r q : Registry} {redefinition : Option Redefinition}
    (h : d.apply r = .ok (q, redefinition)) {name : Text} {m : Macro}
    (hm : q.lookup name = some m) : d.definition = .ok m ∨ r.lookup name = some m := by
  unfold apply at h
  by_cases hd : d.isDefinition
  · rw [if_pos hd] at h
    obtain ⟨n, hn, h⟩ := bind_eq_ok.mp h
    obtain ⟨-, -, h⟩ := bind_eq_ok.mp h
    cases h
    rw [Registry.lookup_insert] at hm
    split at hm
    · cases hm
      exact .inl hn
    · exact .inr hm
  · rw [if_neg hd] at h
    obtain ⟨⟨t, rest⟩, -, h⟩ := bind_eq_ok.mp h
    cases h
    rw [Registry.lookup_erase] at hm
    split at hm
    · cases hm
    · exact .inr hm

theorem definition_binds {e : Directive} (h : d.Moved e) {m : Macro} (hd : d.definition = .ok m) :
    ∃ n, e.definition = .ok n ∧ ∀ name, m.Binds name → n.Binds name := by
  have hag := definition_moved h
  rw [hd] at hag
  obtain ⟨n, hn, hlike⟩ := hag.of_ok
  refine ⟨n, hn, ?_⟩
  intro name hname
  rw [Macro.Binds, hlike.name, hlike.parameters] at hname
  exact hname

end Directive

theorem keeps_laid {depth : Int} {t : Text} (ht : t.WellFormed)
    (hq : ∀ u ∈ (lexText .text t).tokens, ¬IsStray u.kind u.text) :
    Keeps depth t Registry.Plain Laid := by
  have hlaid : Laid (lexText .text t).tokens :=
    laid_lexRows (Text.areLines_lines t) ht.lines hq
  constructor
  case append =>
    intro ts us hc hts hus
    exact hts.append hc hus
  case read =>
    intro ts hts
    exact hlaid.stretch hts
  case expands =>
    intro r ts us hr hts h
    exact h.laid hr (hlaid.stretch hts)
  case obeys =>
    intro r q line d ts d' redefinition hr _ _ hts hd _ ha name m hm
    cases Directive.apply_lookup ha hm with
    | inr hm => exact hr name m hm
    | inl hm =>
      obtain ⟨mark, keyword, rest, rfl, heq⟩ := Directive.operands_eq hd
      have hplain : Throughout Plain (withoutLayout rest) :=
        throughout_withoutLayout fun u hu => (hlaid.stretch hts).writable u (by simp [hu])
      exact fun u hu => hplain u (heq ▸ (Directive.definition_suffix hm).subset hu)

/-- What may be replaced while `t` is processed: what the macros of `r` bind,
and those that `t` defines. -/
def Replaceable (r : Registry) (t : Text) (name : Text) : Prop :=
  (∃ key m, r.lookup key = some m ∧ m.Binds name) ∨
    ∃ line ∈ t.lines, ∃ d m, directive? line = some d ∧ d.definition = .ok m ∧ m.Binds name

theorem keeps_told {depth : Int} {names : Text → Prop} {t : Text} (ht : t.WellFormed)
    (hq : ∀ u ∈ (lexText .text t).tokens, ¬IsStray u.kind u.text)
    (hn : ∀ line ∈ t.lines, ∀ d m, directive? line = some d → d.definition = .ok m →
      ∀ name, m.Binds name → names name)
    (hts : (lexText .text t).tokens.IsChain (Touching (Token.Loose names))) :
    Keeps depth t (fun r => r.Plain ∧ r.Safe names) (List.IsChain Token.Told) := by
  have hplain : Keeps depth t Registry.Plain Laid := keeps_laid ht hq
  have hmeets : (lexText .text t).tokens.IsChain (Neighbours Token.Meets) :=
    neighbours_lexRows (Text.areLines_lines t) ht.lines (by omega) hq
  have hsafe : (lexText .text t).tokens.IsChain (Neighbours (Token.Safe names)) :=
    neighbours_safe hmeets hts
  constructor
  case append =>
    intro ts us hc hts hus
    apply hts.append hus
    intro a ha b _ hlay
    simp [Token.isLayout, hc.getLast? a ha] at hlay
  case read =>
    intro ts hts
    have hchain := hmeets.infix hts
    exact hchain.imp fun _ _ h => h.touching
  case expands =>
    rintro r ts us ⟨hr, hs⟩ hts h
    have hchain := hsafe.infix hts
    exact (h.meets hr hs (hplain.read hts).writable hchain).1
  case obeys =>
    rintro r q line d ts d' redefinition ⟨hr, hs⟩ hl hd hts hd' hmoved ha
    refine ⟨hplain.obeys hr hl hd hts hd' hmoved ha, fun key m hm => ?_⟩
    cases Directive.apply_lookup ha hm with
    | inr hm => exact hs key m hm
    | inl hm =>
      obtain ⟨n, hdef, hbinds⟩ := Directive.definition_binds hmoved hm
      obtain ⟨mark, keyword, rest, rfl, heq⟩ := Directive.operands_eq hd'
      have hline := hsafe.infix hts
      have hchain : (withoutLayout rest).IsChain (Touching (Token.Safe names)) :=
        touching_withoutLayout hline.tail.tail
      exact ⟨fun name h => hn line hl d n hd hdef name (hbinds name h),
        hchain.suffix (heq ▸ Directive.definition_suffix hm)⟩

/-- Processed tokens read back exactly if none of them is written next to a
neighbour that it merges with, and no two merge where no name that may be
replaced touches what it could be added to. -/
theorem process_readsBack_iff (r : Registry) (c : Config) {t : Text} (ht : t.WellFormed)
    (hb : ∀ name m, r.lookup name = some m → ∃ source body, lexBody source body = .ok m.body)
    (hm : ∀ name m, r.lookup name = some m → ∀ u ∈ m.body, ¬IsStray u.kind u.text)
    (hq : ∀ u ∈ (lexText .text t).tokens, ¬IsStray u.kind u.text)
    (hp : (process c r [] (lexText .text t)).failure = none) :
    (ReadsBack (process c r [] (lexText .text t)).tokens ↔
      (process c r [] (lexText .text t)).tokens.IsChain Token.Apart) ∧
    ((lexText .text t).tokens.IsChain (Touching (Token.Loose (Replaceable r t))) →
      (∀ name m, r.lookup name = some m →
        m.body.IsChain (Touching (Token.Loose (Replaceable r t)))) →
      ReadsBack (process c r [] (lexText .text t)).tokens) := by
  have hr : r.Plain := by
    intro name m hl
    obtain ⟨source, body, hbody⟩ := hb name m hl
    exact plain_lexBody hbody (hm name m hl)
  have hlaid : Laid (process c r [] (lexText .text t)).tokens :=
    (keeps_laid ht hq).processed ht hr hp
  have hiff := readsBack_iff hlaid.writable hlaid.comments
  refine ⟨hiff, ?_⟩
  intro htext hbodies
  have hs : r.Safe (Replaceable r t) := by
    intro name m hl
    obtain ⟨source, body, hbody⟩ := hb name m hl
    constructor
    · intro n hn
      exact .inl ⟨name, m, hl, hn⟩
    · exact touching_safe (touching_lexBody hbody (hm name m hl)) (hbodies name m hl)
  have hn : ∀ line ∈ t.lines, ∀ d m, directive? line = some d → d.definition = .ok m →
      ∀ name, m.Binds name → Replaceable r t name := by
    intro line hl d m hd hdef name hname
    exact .inr ⟨line, hl, d, m, hd, hdef, hname⟩
  have htold : (process c r [] (lexText .text t)).tokens.IsChain Token.Told :=
    (keeps_told ht hq hn htext).processed ht ⟨hr, hs⟩ hp
  exact hiff.mpr (hlaid.isChain_apart htold)

def slashSample : Registry :=
  ⟨[⟨"N", none, [⟨.punctuation, "/", ⟨0, 0, .definition⟩, some false⟩], .definition⟩]⟩

theorem slashSample_lookup {name : Text} {m : Macro} (h : slashSample.lookup name = some m) :
    m = ⟨"N", none, [⟨.punctuation, "/", ⟨0, 0, .definition⟩, some false⟩], .definition⟩ := by
  have hm : m ∈ slashSample.macros := List.mem_of_find?_eq_some h
  simpa [slashSample] using hm

theorem slashSample_lexBody (name : Text) (m : Macro) (h : slashSample.lookup name = some m) :
    ∃ source body, lexBody source body = .ok m.body := by
  obtain rfl := slashSample_lookup h
  exact ⟨.definition, "/", by cbv⟩

theorem slashSample_notStray (name : Text) (m : Macro) (h : slashSample.lookup name = some m) :
    ∀ u ∈ m.body, ¬IsStray u.kind u.text := by
  obtain rfl := slashSample_lookup h
  decide

/-- A name between spaces leaves a space on both sides of its body. -/
theorem process_readsBack_sample :
    Text.WellFormed "a / N b\n" ∧
      (process ⟨200, true⟩ slashSample [] (lexText .text "a / N b\n")).failure = none ∧
      ReadsBack (process ⟨200, true⟩ slashSample [] (lexText .text "a / N b\n")).tokens := by
  have hw : Text.WellFormed "a / N b\n" := by decide
  have hts : (lexText .text "a / N b\n").tokens =
      [⟨.identifier, "a", ⟨0, 0, .text⟩, some false⟩, ⟨.punctuation, "/", ⟨0, 2, .text⟩, some true⟩,
        ⟨.identifier, "N", ⟨0, 4, .text⟩, some true⟩, ⟨.identifier, "b", ⟨0, 6, .text⟩, some true⟩,
        ⟨.eol, "\n", ⟨0, 7, .text⟩, some false⟩] := by cbv
  have hq : ∀ u ∈ (lexText .text "a / N b\n").tokens, ¬IsStray u.kind u.text := by
    rw [hts]
    decide
  have hp : (process ⟨200, true⟩ slashSample [] (lexText .text "a / N b\n")).failure = none := by
    cbv
  have hloose : (lexText .text "a / N b\n").tokens.IsChain
      (Touching (Token.Loose (Replaceable slashSample "a / N b\n"))) := by
    rw [hts]
    simp [Touching, Token.Loose]
  have hbody : ∀ name m, slashSample.lookup name = some m →
      m.body.IsChain (Touching (Token.Loose (Replaceable slashSample "a / N b\n"))) := by
    intro name m h
    obtain rfl := slashSample_lookup h
    exact List.isChain_singleton _
  exact ⟨hw, hp, (process_readsBack_iff slashSample ⟨200, true⟩ hw slashSample_lexBody
    slashSample_notStray hq hp).2 hloose hbody⟩

/-- A body that takes the place of a touching name merges with the slash before it. -/
theorem process_not_readsBack :
    ¬∀ (r : Registry) (c : Config) (t : Text), t.WellFormed →
      (∀ name m, r.lookup name = some m → ∃ source body, lexBody source body = .ok m.body) →
      (∀ name m, r.lookup name = some m → ∀ u ∈ m.body, ¬IsStray u.kind u.text) →
      (∀ u ∈ (lexText .text t).tokens, ¬IsStray u.kind u.text) →
      (process c r [] (lexText .text t)).failure = none →
      ReadsBack (process c r [] (lexText .text t)).tokens := by
  intro h
  have hts : (lexText .text "a /N b\n").tokens =
      [⟨.identifier, "a", ⟨0, 0, .text⟩, some false⟩, ⟨.punctuation, "/", ⟨0, 2, .text⟩, some true⟩,
        ⟨.identifier, "N", ⟨0, 3, .text⟩, some false⟩, ⟨.identifier, "b", ⟨0, 5, .text⟩, some true⟩,
        ⟨.eol, "\n", ⟨0, 6, .text⟩, some false⟩] := by cbv
  have hq : ∀ u ∈ (lexText .text "a /N b\n").tokens, ¬IsStray u.kind u.text := by
    rw [hts]
    decide
  obtain ⟨text, us, hr, hl, hw⟩ := h slashSample ⟨200, false⟩ "a /N b\n" (by decide)
    slashSample_lexBody slashSample_notStray hq (by cbv)
  have hrender : render (process ⟨200, false⟩ slashSample [] (lexText .text "a /N b\n")).tokens =
      .ok "a // b\n" := by cbv
  obtain rfl : text = "a // b\n" := by simpa [hrender] using hr.symm
  have hread : (lexText .text "a // b\n").toExcept.map List.length = .ok 3 := by cbv
  have htokens :
      (process ⟨200, false⟩ slashSample [] (lexText .text "a /N b\n")).tokens.length = 5 := by cbv
  have hlength : us.length = 5 := by simpa [htokens] using congrArg List.length hw
  rw [hl] at hread
  simp [Except.map, hlength] at hread

end TextMacros
