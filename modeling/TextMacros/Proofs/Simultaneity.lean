import Mathlib.Data.List.Nodup
import TextMacros.Proofs.Spacing

/-!
# Simultaneous substitution

Each parameter in a body stands for its argument, whatever names that argument
holds, and nothing else of the body changes. So a parameter is a name that
nobody sees: other names, for the list of parameters and for the body alike,
give the same tokens with the same spaces.
-/

set_option autoImplicit false

namespace TextMacros

theorem bare_substitute (bs : Bindings) (afterArgument : Bool) (body : List Token) :
    bare (substitute bs afterArgument body) =
      bare (body.flatMap fun t => (bs.argument? t).getD [t]) := by
  induction body generalizing afterArgument with
  | nil => rfl
  | cons t body ih =>
    rw [List.flatMap_cons, bare_append]
    cases ha : bs.argument? t with
    | none =>
      have hs : substitute bs afterArgument (t :: body) =
          t.placed afterArgument :: substitute bs false body := by
        rw [substitute, ha]
        rfl
      rw [hs, bare_cons, Token.bare_placed, ih]
      rfl
    | some argument =>
      have hs : substitute bs afterArgument (t :: body) =
          respace t.spaced argument ++ substitute bs true body := by
        rw [substitute, ha]
      rw [hs, bare_append, bare_respace, ih]
      rfl

section
variable {parameters : List Text}

/-- Arguments are the values of a function of the names if no two names are the same. -/
theorem exists_value (hd : parameters.Nodup) {arguments : List (List Token)}
    (hn : arguments.length = parameters.length) :
    ∃ value : Text → List Token, parameters.map value = arguments := by
  induction parameters generalizing arguments with
  | nil =>
    have ha : arguments = [] := List.length_eq_zero_iff.mp hn
    exact ⟨fun _ => [], ha.symm⟩
  | cons p ps ih =>
    obtain ⟨hp, hps⟩ := List.nodup_cons.mp hd
    cases arguments with
    | nil => cases hn
    | cons a as =>
      obtain ⟨value, rfl⟩ := ih hps (Nat.succ.inj hn)
      refine ⟨fun name => if name = p then a else value name, ?_⟩
      have hrest : ps.map (fun name => if name = p then a else value name) = ps.map value := by
        apply List.map_congr_left
        intro q hq
        exact if_neg (ne_of_mem_of_not_mem hq hp)
      rw [List.map_cons, if_pos rfl, hrest]

theorem lookup_zip_map (parameters : List Text) (value : Text → List Token) (name : Text) :
    (parameters.zip (parameters.map value)).lookup name =
      if name ∈ parameters then some (value name) else none := by
  induction parameters with
  | nil => rfl
  | cons p ps ih =>
    rw [List.map_cons, List.zip_cons_cons, List.lookup_cons]
    by_cases h : name = p
    · simp [h]
    · simp [h, ih, beq_false_of_ne h]

theorem argument?_zip_map (parameters : List Text) (value : Text → List Token) (t : Token) :
    Bindings.argument? (parameters.zip (parameters.map value)) t =
      if t.kind = .identifier ∧ t.text ∈ parameters then some (value t.text) else none := by
  unfold Bindings.argument?
  by_cases hk : t.kind = .identifier
  · simp only [hk, lookup_zip_map, if_true, true_and]
  · simp only [hk, false_and, if_false]

/-- The token under another name, if it has one of `names`. -/
def Token.renamed (ρ : Text → Text) (names : List Text) (t : Token) : Token :=
  if t.kind = .identifier ∧ t.text ∈ names then { t with text := ρ t.text } else t

@[simp] theorem Token.spaced_renamed (ρ : Text → Text) (names : List Text) (t : Token) :
    (t.renamed ρ names).spaced = t.spaced := by
  unfold renamed
  split <;> rfl

/-- The names of the parameters are changed where they are listed and where they are used. -/
def Macro.renamed (ρ : Text → Text) (m : Macro) : Macro :=
  { m with
    parameters := m.parameters.map (List.map ρ)
    body := m.body.map (Token.renamed ρ (m.parameters.getD [])) }

/-- A name that the body holds besides the parameters is no new name of a parameter. -/
def Unclaimed (ρ : Text → Text) (parameters : List Text) (body : List Token) : Prop :=
  ∀ t ∈ body, t.kind = .identifier → t.text ∉ parameters → t.text ∉ parameters.map ρ

/-- Whatever a token stands for, its new name stands for. -/
theorem argument?_renamed {ρ : Text → Text} (hρ : (parameters.map ρ).Nodup)
    {arguments : List (List Token)} (hn : arguments.length = parameters.length) {t : Token}
    (ht : t.kind = .identifier → t.text ∉ parameters → t.text ∉ parameters.map ρ) :
    Bindings.argument? ((parameters.map ρ).zip arguments) (t.renamed ρ parameters) =
      Bindings.argument? (parameters.zip arguments) t := by
  obtain ⟨value, hvalue⟩ := exists_value hρ (hn.trans (List.length_map ρ).symm)
  have hold : parameters.map (value ∘ ρ) = arguments := by rw [← hvalue, List.map_map]
  have hleft := argument?_zip_map (parameters.map ρ) value (t.renamed ρ parameters)
  have hright := argument?_zip_map parameters (value ∘ ρ) t
  rw [hvalue] at hleft
  rw [hold] at hright
  rw [hleft, hright]
  by_cases hp : t.kind = .identifier ∧ t.text ∈ parameters
  · have hmem : ρ t.text ∈ parameters.map ρ := List.mem_map_of_mem hp.2
    rw [Token.renamed, if_pos hp, if_pos hp, if_pos ⟨hp.1, hmem⟩]
    rfl
  · have hnot : ¬ (t.kind = .identifier ∧ t.text ∈ parameters.map ρ) := fun h =>
      ht h.1 (fun hm => hp ⟨h.1, hm⟩) h.2
    rw [Token.renamed, if_neg hp, if_neg hp, if_neg hnot]

theorem renamed_of_argument?_eq_none (ρ : Text → Text) (hd : parameters.Nodup)
    {arguments : List (List Token)} (hn : arguments.length = parameters.length) {t : Token}
    (h : Bindings.argument? (parameters.zip arguments) t = none) : t.renamed ρ parameters = t := by
  obtain ⟨value, rfl⟩ := exists_value hd hn
  rw [argument?_zip_map] at h
  apply if_neg
  intro hp
  rw [if_pos hp] at h
  cases h

theorem substitute_renamed {ρ : Text → Text} (hρ : (parameters.map ρ).Nodup)
    {arguments : List (List Token)} (hn : arguments.length = parameters.length)
    {body : List Token} (hu : Unclaimed ρ parameters body) (afterArgument : Bool) :
    substitute ((parameters.map ρ).zip arguments) afterArgument
        (body.map (Token.renamed ρ parameters)) =
      substitute (parameters.zip arguments) afterArgument body := by
  have hd : parameters.Nodup := List.Nodup.of_map ρ hρ
  induction body generalizing afterArgument with
  | nil => rfl
  | cons t body ih =>
    obtain ⟨ht, hbody⟩ := List.forall_mem_cons.mp hu
    rw [List.map_cons, substitute, substitute, argument?_renamed hρ hn ht]
    cases ha : Bindings.argument? (parameters.zip arguments) t with
    | none => simp only [renamed_of_argument?_eq_none ρ hd hn ha, ih hbody]
    | some argument => simp only [Token.spaced_renamed, ih hbody]

end

/-- What takes the place of an invocation, but for the spaces: the body with the whole argument
for each name of a parameter, and with all other tokens as they are. New names for the parameters,
no two of them the same and none of them a name that the body holds already, change nothing at
all. -/
theorem substitution_simultaneous (m : Macro) (parameters : List Text)
    (hp : m.parameters = some parameters) (hd : parameters.Nodup) (arguments : List (List Token))
    (hn : arguments.length = parameters.length) (following : Nat) :
    (∃ value : Text → List Token, parameters.map value = arguments ∧
      bare (Invocation.substitution ⟨m, some arguments, following⟩) =
        bare (m.body.flatMap fun t =>
          if t.kind = .identifier ∧ t.text ∈ parameters then value t.text else [t])) ∧
    ∀ ρ : Text → Text, (parameters.map ρ).Nodup → Unclaimed ρ parameters m.body →
      Invocation.substitution ⟨m.renamed ρ, some arguments, following⟩ =
        Invocation.substitution ⟨m, some arguments, following⟩ := by
  constructor
  · obtain ⟨value, rfl⟩ := exists_value hd hn
    refine ⟨value, rfl, ?_⟩
    simp only [Invocation.substitution, hp, Option.getD_some, bare_substitute]
    congr 2
    funext t
    rw [argument?_zip_map]
    split <;> rfl
  · intro ρ hρ hu
    simp only [Invocation.substitution, Macro.renamed, hp, Option.map_some, Option.getD_some]
    exact substitute_renamed hρ hn hu false

/-- A body with a number, a literal and a name besides its two parameters. -/
def renamingSample : Macro :=
  let touching (kind : TokenKind) (text : Text) : Token := ⟨kind, text, .definition, some false⟩
  ⟨"F", some ["x", "y"], [touching .identifier "x", touching .identifier "y",
    touching .identifier "z", touching .string "\"x\"", touching .identifier "x"], .definition⟩

/-- The first argument holds both names, and the second one is empty. -/
theorem substitution_simultaneous_sample :
    let touching (kind : TokenKind) (text : Text) : Token := ⟨kind, text, .definition, some false⟩
    let names : List Text := ["x", "y"]
    let arguments := [[touching .identifier "y", touching .identifier "x"], []]
    let underlined (name : Text) : Text := CodePoint.underscore :: name
    renamingSample.parameters = some names ∧ names.Nodup ∧ arguments.length = names.length ∧
      (names.map underlined).Nodup ∧ Unclaimed underlined names renamingSample.body ∧
      (∃ value : Text → List Token, names.map value = arguments ∧
        bare (Invocation.substitution ⟨renamingSample, some arguments, 6⟩) =
          bare (renamingSample.body.flatMap fun t =>
            if t.kind = .identifier ∧ t.text ∈ names then value t.text else [t])) ∧
      Invocation.substitution ⟨renamingSample.renamed underlined, some arguments, 6⟩ =
        [touching .identifier "y", touching .identifier "x",
          (touching .identifier "z").withSpacing none, touching .string "\"x\"",
          touching .identifier "y", touching .identifier "x"] := by
  intro touching names arguments underlined
  have hd : names.Nodup := by decide
  have hρ : (names.map underlined).Nodup := by decide
  have hu : Unclaimed underlined names renamingSample.body := by
    unfold Unclaimed
    decide
  obtain ⟨hvalue, hrenamed⟩ :=
    substitution_simultaneous renamingSample names rfl hd arguments rfl 6
  exact ⟨rfl, hd, rfl, hρ, hu, hvalue, hrenamed underlined hρ hu⟩

end TextMacros
