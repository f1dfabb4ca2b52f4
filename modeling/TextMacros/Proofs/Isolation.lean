import Mathlib
import TextMacros.Workspace

/-!
# Isolated expansions

An expansion leaves nothing behind that an engine can see: the registry that
directives change is a copy, and no engine refers to it. So two runs that
differ only in their expansions keep the same macros, and the other steps
answer the same.
-/

set_option autoImplicit false

namespace TextMacros

namespace Workspace

/-! ### What an expansion leaves behind -/

section
variable (w : Workspace)

theorem registryAt_workplace (e : Engine) :
    (w.workplace e).1.registryAt (w.workplace e).2 = w.registryAt e.registry := by
  unfold workplace
  split
  · simp [registryAt]
  · rfl

theorem expand_report (n : Nat) (input : Input) :
    (w.expand n input).2 = expandInput (w.registryOf n) (w.engine n).config input := by
  unfold expand expandInput
  dsimp only
  cases (w.engine n).config.fault? with
  | some fault => rfl
  | none =>
    cases input.decode with
    | error e => rfl
    | ok t =>
      dsimp only
      rw [registryAt_workplace]
      rfl

/-- The engines stay as they are, and so do the registries they know. -/
theorem expand_registries (n : Nat) (input : Input) : ∃ copies,
    (w.expand n input).1 = { w with registries := w.registries ++ copies } := by
  have hnone : w = { w with registries := w.registries ++ [] } := by rw [List.append_nil]
  unfold expand
  dsimp only
  cases (w.engine n).config.fault? with
  | some fault => exact ⟨[], hnone⟩
  | none =>
    cases input.decode with
    | error e => exact ⟨[], hnone⟩
    | ok t =>
      dsimp only
      rw [registryAt_workplace]
      unfold workplace
      split
      · refine ⟨[(process (w.engine n).config (w.registryOf n) [] (lexText .text t)).registry], ?_⟩
        rw [registryOf, setRegistryAt, List.set_append_right _ _ (Nat.le_refl _), Nat.sub_self,
          List.set_cons_zero]
      · next hd =>
        rw [process_registry (by simpa using hd)]
        exact ⟨[], (w.setRegistryAt_self _).trans hnone⟩

end

/-! ### Workspaces that are alike -/

/-- Two engines share a registry in both workspaces or in neither, and every
engine knows the same macros. Registries may be numbered in other ways. -/
structure Alike (w v : Workspace) : Prop where
  engines : w.engines.length = v.engines.length
  shares : ∀ m n, (w.engine m).registry = (w.engine n).registry ↔
    (v.engine m).registry = (v.engine n).registry
  registryOf : ∀ n, w.registryOf n = v.registryOf n

/-- Every engine knows a registry that is there. -/
def Sound (w : Workspace) : Prop := ∀ n, (w.engine n).registry < w.registries.length

namespace Alike
variable {w v u : Workspace}

theorem refl (w : Workspace) : w.Alike w := ⟨rfl, fun _ _ => .rfl, fun _ => rfl⟩

theorem symm (h : w.Alike v) : v.Alike w :=
  ⟨h.engines.symm, fun m n => (h.shares m n).symm, fun n => (h.registryOf n).symm⟩

theorem trans (h : w.Alike v) (h' : v.Alike u) : w.Alike u :=
  ⟨h.engines.trans h'.engines, fun m n => (h.shares m n).trans (h'.shares m n),
    fun n => (h.registryOf n).trans (h'.registryOf n)⟩

end Alike

theorem sound_start (config : Config) : (start config).Sound := by
  intro n
  cases n <;> simp [start, engine]

section
variable {w v : Workspace}

theorem Sound.grown (h : w.Sound) (more : List Registry) :
    Sound { w with registries := w.registries ++ more } := by
  intro n
  have hn : (w.engine n).registry < w.registries.length := h n
  simp only [List.length_append]
  exact Nat.lt_add_right _ hn

theorem Sound.alike_grown (h : w.Sound) (more : List Registry) :
    Alike { w with registries := w.registries ++ more } w :=
  ⟨rfl, fun _ _ => .rfl, fun n => List.getD_append _ _ _ _ (h n)⟩

/-! ### Definitions -/

theorem registryOf_setRegistryOf (h : w.Sound) (n m : Nat) (r : Registry) :
    (w.setRegistryOf n r).registryOf m =
      if (w.engine n).registry = (w.engine m).registry then r else w.registryOf m := by
  have hlen : (w.engine m).registry < (w.registries.set (w.engine n).registry r).length := by
    simpa using h m
  show (w.registries.set (w.engine n).registry r).getD (w.engine m).registry .empty = _
  rw [List.getD_eq_getElem _ _ hlen, List.getElem_set, registryOf, registryAt,
    List.getD_eq_getElem _ _ (h m)]

theorem Sound.setRegistryOf (h : w.Sound) (n : Nat) (r : Registry) : (w.setRegistryOf n r).Sound := by
  intro m
  have hm : (w.engine m).registry < w.registries.length := h m
  show (w.engine m).registry < (w.registries.set (w.engine n).registry r).length
  rwa [List.length_set]

theorem Alike.setRegistryOf (h : w.Alike v) (hw : w.Sound) (hv : v.Sound) (n : Nat) (r : Registry) :
    (w.setRegistryOf n r).Alike (v.setRegistryOf n r) where
  engines := h.engines
  shares := h.shares
  registryOf m := by
    simp only [registryOf_setRegistryOf hw, registryOf_setRegistryOf hv, h.shares, h.registryOf]

/-! ### New engines -/

theorem engine_create (w : Workspace) (n : Nat) (share : Bool) (config : Config) (m : Nat) :
    (w.create n share config).engine m =
      if m = w.engines.length then
        ⟨if share then (w.engine n).registry else w.registries.length, config⟩
      else w.engine m := by
  have hnew : ∀ e : Engine, (w.engines ++ [e]).getD m ⟨0, {}⟩ =
      if m = w.engines.length then e else w.engines.getD m ⟨0, {}⟩ := by
    intro e
    obtain hm | rfl | hm := Nat.lt_trichotomy m w.engines.length
    · rw [List.getD_append _ _ _ _ hm, if_neg (by omega)]
    · simp
    · rw [if_neg (by omega), List.getD_eq_default _ _ (by simp; omega),
        List.getD_eq_default _ _ (by omega)]
  cases share with
  | true => exact hnew _
  | false => exact hnew _

theorem registryOf_create (h : w.Sound) (n : Nat) (share : Bool) (config : Config) (m : Nat) :
    (w.create n share config).registryOf m =
      if m = w.engines.length then (if share then w.registryOf n else .empty)
      else w.registryOf m := by
  rw [registryOf, engine_create]
  cases share with
  | true => split <;> rfl
  | false =>
    split
    · simp [registryAt, create]
    · exact List.getD_append _ _ _ _ (h m)

theorem Sound.create (h : w.Sound) (n : Nat) (share : Bool) (config : Config) :
    (w.create n share config).Sound := by
  intro m
  have hn : (w.engine n).registry < w.registries.length := h n
  have hm : (w.engine m).registry < w.registries.length := h m
  rw [engine_create]
  cases share <;> split <;> simp [Workspace.create] <;> omega

theorem Alike.create (h : w.Alike v) (hw : w.Sound) (hv : v.Sound) (n : Nat) (share : Bool)
    (config config' : Config) : (w.create n share config).Alike (v.create n share config') where
  engines := by cases share <;> simp [Workspace.create, h.engines]
  shares k m := by
    simp only [engine_create, h.engines]
    cases share with
    | true =>
      by_cases hk : k = v.engines.length <;> by_cases hm : m = v.engines.length <;>
        simp [hk, hm, h.shares]
    | false =>
      -- The number of the new registry is that of no other one.
      have hwk : (w.engine k).registry ≠ w.registries.length := Nat.ne_of_lt (hw k)
      have hwm : (w.engine m).registry ≠ w.registries.length := Nat.ne_of_lt (hw m)
      have hvk : (v.engine k).registry ≠ v.registries.length := Nat.ne_of_lt (hv k)
      have hvm : (v.engine m).registry ≠ v.registries.length := Nat.ne_of_lt (hv m)
      by_cases hk : k = v.engines.length <;> by_cases hm : m = v.engines.length <;>
        simp [hk, hm, h.shares, hwk, hwm.symm, hvk, hvm.symm]
  registryOf m := by
    simp only [registryOf_create hw, registryOf_create hv, h.engines, h.registryOf]

/-! ### New configurations -/

theorem map_config_modify (es : List Engine) (n : Nat) (config : Config) :
    (es.modify n fun e => { e with config := config }).map Engine.config =
      (es.map Engine.config).modify n fun _ => config := by
  apply List.ext_getElem?
  intro m
  simp only [List.getElem?_map, List.getElem?_modify]
  cases es[m]? with
  | none => rfl
  | some e => by_cases h : n = m <;> simp [h]

theorem registry_configure (w : Workspace) (n : Nat) (config : Config) (m : Nat) :
    (engine { w with engines := w.engines.modify n fun e => { e with config := config } } m).registry =
      (w.engine m).registry := by
  simp only [engine, List.getD_eq_getElem?_getD, List.getElem?_modify]
  cases w.engines[m]? with
  | none => rfl
  | some e => by_cases h : n = m <;> simp [h]

theorem Sound.configure (h : w.Sound) (n : Nat) (config : Config) :
    Sound { w with engines := w.engines.modify n fun e => { e with config := config } } := by
  intro m
  rw [registry_configure]
  exact h m

theorem alike_configure (w : Workspace) (n : Nat) (config : Config) :
    Alike { w with engines := w.engines.modify n fun e => { e with config := config } } w where
  engines := List.length_modify _ _ _
  shares k m := by rw [registry_configure, registry_configure]
  registryOf m := by
    rw [registryOf, registry_configure]
    rfl

end

end Workspace

/-! ### Steps -/

namespace Step

/-- The steps that decide which macros the engines know. -/
def shapes : Step → Bool
  | define .. | undefine _ | create .. => true
  | expand _ | configure _ | lookup _ => false

def isExpansion : Step → Bool
  | expand _ => true
  | _ => false

/-- The configurations of all engines after a step of one of them. -/
def configs (n : Nat) (cs : List Config) : Step → List Config
  | configure config => cs.modify n fun _ => config
  | create _ config => cs ++ [config]
  | _ => cs

end Step

namespace Workspace

def configs (w : Workspace) : List Config := w.engines.map Engine.config

section
variable {w v : Workspace}

theorem engine_config (w : Workspace) (n : Nat) : (w.engine n).config = w.configs.getD n {} := by
  rw [configs, engine, show ({} : Config) = Engine.config ⟨0, {}⟩ from rfl, List.getD_map]

theorem configs_step (w : Workspace) (n : Nat) (s : Step) :
    (w.step n s).1.configs = s.configs n w.configs := by
  cases s with
  | define name parameters body =>
    rw [step]
    split <;> rfl
  | undefine name => rfl
  | expand input =>
    obtain ⟨copies, hcopies⟩ := w.expand_registries n input
    show (w.expand n input).1.configs = w.configs
    rw [hcopies]
    rfl
  | configure config => exact map_config_modify w.engines n config
  | create share config =>
    show (w.create n share config).engines.map Engine.config = w.engines.map Engine.config ++ [config]
    cases share <;> simp [Workspace.create]
  | lookup name => rfl

theorem Sound.step (h : w.Sound) (n : Nat) (s : Step) : (w.step n s).1.Sound := by
  cases s with
  | define name parameters body =>
    rw [Workspace.step]
    split
    · exact h
    · exact h.setRegistryOf n _
  | undefine name => exact h.setRegistryOf n _
  | expand input =>
    obtain ⟨copies, hcopies⟩ := w.expand_registries n input
    show (w.expand n input).1.Sound
    rw [hcopies]
    exact h.grown copies
  | configure config => exact h.configure n config
  | create share config => exact h.create n share config
  | lookup name => exact h

/-- The other steps change nothing that the macros of an engine depend on. -/
theorem Sound.alike_step (h : w.Sound) (n : Nat) {s : Step} (hs : s.shapes = false) :
    (w.step n s).1.Alike w := by
  cases s with
  | define | undefine | create => cases hs
  | expand input =>
    obtain ⟨copies, hcopies⟩ := w.expand_registries n input
    show (w.expand n input).1.Alike w
    rw [hcopies]
    exact h.alike_grown copies
  | configure config => exact w.alike_configure n config
  | lookup name => exact .refl w

theorem Alike.step (h : w.Alike v) (hw : w.Sound) (hv : v.Sound) (n : Nat) (s : Step) :
    (w.step n s).1.Alike (v.step n s).1 := by
  cases hs : s.shapes with
  | false => exact ((hw.alike_step n hs).trans h).trans (hv.alike_step n hs).symm
  | true =>
    cases s with
    | define name parameters body =>
      rw [Workspace.step, Workspace.step, h.registryOf n]
      split
      · exact h
      · exact h.setRegistryOf hw hv n _
    | undefine name =>
      rw [Workspace.step, Workspace.step, h.registryOf n]
      exact h.setRegistryOf hw hv n _
    | create share config => exact h.create hw hv n share config config
    | expand | configure | lookup => cases hs

theorem Alike.answer (h : w.Alike v) (n : Nat) (result : Except Failure Outcome)
    (redefinitions : List Redefinition) :
    (w.answer n result redefinitions).2 = (v.answer n result redefinitions).2 := by
  rw [Workspace.answer, Workspace.answer, h.registryOf n]

/-- Only expansions look at the configurations. -/
theorem Alike.answer_step (h : w.Alike v) (hw : w.Sound) (hv : v.Sound) (n : Nat) {s : Step}
    (hs : s.isExpansion = false) : (w.step n s).2 = (v.step n s).2 := by
  have hstep : (w.step n s).1.Alike (v.step n s).1 := h.step hw hv n s
  cases s with
  | define name parameters body =>
    rw [Workspace.step, Workspace.step, h.registryOf n] at hstep ⊢
    split at hstep
    · exact hstep.answer n _ _
    · exact hstep.answer n _ _
  | undefine name => exact hstep.answer n _ _
  | expand input => cases hs
  | configure config => exact hstep.answer n _ _
  | create share config =>
    rw [Workspace.step, Workspace.step, h.engines] at hstep ⊢
    exact hstep.answer n _ _
  | lookup name =>
    rw [Workspace.step, Workspace.step, h.registryOf n]
    exact h.answer n _ _

/-- An expansion answers what its text, its configuration and the macros of its engine tell. -/
theorem Sound.answer_expand (h : w.Sound) (n : Nat) (input : Input) :
    (w.step n (.expand input)).2 =
      let report := expandInput (w.registryOf n) (w.engine n).config input
      ⟨report.result.map .expanded, report.redefinitions, (w.registryOf n).size⟩ := by
  have hstep : (w.step n (.expand input)).1.Alike w := h.alike_step n rfl
  have hregistry : (w.expand n input).1.registryOf n = w.registryOf n := hstep.registryOf n
  show (answer (w.expand n input).1 n ((w.expand n input).2.result.map .expanded)
    (w.expand n input).2.redefinitions).2 = _
  rw [answer, hregistry, expand_report]

/-! ### Runs -/

/-- The answers of the steps that are no expansions. -/
def otherAnswers (steps : List (Nat × Step)) (answers : List Answer) : List Answer :=
  ((steps.zip answers).filter fun a => !a.1.2.isExpansion).map Prod.snd

def withoutExpansions (steps : List (Nat × Step)) : List (Nat × Step) :=
  steps.filter fun s => !s.2.isExpansion

def onlyShaping (steps : List (Nat × Step)) : List (Nat × Step) := steps.filter fun s => s.2.shapes

theorem run_cons (w : Workspace) (n : Nat) (s : Step) (rest : List (Nat × Step)) :
    w.run ((n, s) :: rest) =
      (((w.step n s).1.run rest).1, (w.step n s).2 :: ((w.step n s).1.run rest).2) := rfl

theorem run_append (w : Workspace) (before after : List (Nat × Step)) :
    w.run (before ++ after) =
      (((w.run before).1.run after).1, (w.run before).2 ++ ((w.run before).1.run after).2) := by
  induction before generalizing w with
  | nil => rfl
  | cons s before ih =>
    obtain ⟨n, s⟩ := s
    rw [List.cons_append, run_cons, run_cons, ih]
    rfl

theorem length_run (w : Workspace) (steps : List (Nat × Step)) :
    (w.run steps).2.length = steps.length := by
  induction steps generalizing w with
  | nil => rfl
  | cons s steps ih => exact congrArg (· + 1) (ih _)

theorem Sound.run (h : w.Sound) (steps : List (Nat × Step)) : (w.run steps).1.Sound := by
  induction steps generalizing w with
  | nil => exact h
  | cons s steps ih => exact ih (h.step s.1 s.2)

/-- Steps that shape no registry may be left out of a run. -/
theorem Alike.run (h : w.Alike v) (hw : w.Sound) (hv : v.Sound) {p : Step → Bool}
    (hp : ∀ s, s.shapes = true → p s = true) (steps : List (Nat × Step)) :
    (w.run steps).1.Alike (v.run (steps.filter fun s => p s.2)).1 := by
  induction steps generalizing w v with
  | nil => exact h
  | cons s steps ih =>
    obtain ⟨n, s⟩ := s
    cases hs : p s with
    | true =>
      rw [List.filter_cons_of_pos (by exact hs)]
      exact ih (h.step hw hv n s) (hw.step n s) (hv.step n s)
    | false =>
      have hquiet : s.shapes = false := by
        cases hshapes : s.shapes with
        | false => rfl
        | true => exact absurd (hp s hshapes) (by simp [hs])
      rw [List.filter_cons_of_neg (by simp [hs])]
      exact ih ((hw.alike_step n hquiet).trans h) (hw.step n s) hv

theorem not_isExpansion_of_shapes {s : Step} (h : s.shapes = true) : (!s.isExpansion) = true := by
  cases s <;> first | rfl | cases h

theorem Alike.otherAnswers_run (h : w.Alike v) (hw : w.Sound) (hv : v.Sound)
    (steps : List (Nat × Step)) :
    otherAnswers steps (w.run steps).2 = (v.run (withoutExpansions steps)).2 := by
  induction steps generalizing w v with
  | nil => rfl
  | cons s steps ih =>
    obtain ⟨n, s⟩ := s
    cases hs : s.isExpansion with
    | true =>
      have hquiet : s.shapes = false := by
        cases s <;> first | rfl | cases hs
      have hrest := ih ((hw.alike_step n hquiet).trans h) (hw.step n s) hv
      simpa [otherAnswers, withoutExpansions, run_cons, hs] using hrest
    | false =>
      have hrest := ih (h.step hw hv n s) (hw.step n s) (hv.step n s)
      simpa [otherAnswers, withoutExpansions, run_cons, hs, h.answer_step hw hv n hs] using hrest

theorem configs_run (h : w.configs = v.configs) (steps : List (Nat × Step)) :
    (w.run steps).1.configs = (v.run (withoutExpansions steps)).1.configs := by
  induction steps generalizing w v with
  | nil => exact h
  | cons s steps ih =>
    obtain ⟨n, s⟩ := s
    cases hs : s.isExpansion with
    | true =>
      have hstep : (w.step n s).1.configs = v.configs := by
        rw [configs_step, ← h]
        cases s <;> first | rfl | cases hs
      rw [withoutExpansions, List.filter_cons_of_neg (by simp [hs])]
      exact ih hstep
    | false =>
      have hstep : (w.step n s).1.configs = (v.step n s).1.configs := by
        rw [configs_step, configs_step, h]
      rw [withoutExpansions, List.filter_cons_of_pos (by simp [hs])]
      exact ih hstep

end

/-- Without its expansions a run answers the same to all other steps and leaves
every engine with the same macros. An expansion answers what its text tells
under its configuration and the macros of its engine, which depend on the
definitions before it only. -/
theorem run_isolates_expansions (config : Config) :
    (∀ steps : List (Nat × Step),
      otherAnswers steps ((start config).run steps).2 =
        ((start config).run (withoutExpansions steps)).2 ∧
      ∀ n, ((start config).run steps).1.registryOf n =
        ((start config).run (withoutExpansions steps)).1.registryOf n) ∧
    ∀ (before after : List (Nat × Step)) (n : Nat) (input : Input),
      ((start config).run (before ++ (n, .expand input) :: after)).2[before.length]? =
        let r := ((start config).run (onlyShaping before)).1.registryOf n
        let c := (((start config).run (withoutExpansions before)).1.engine n).config
        let report := expandInput r c input
        some ⟨report.result.map .expanded, report.redefinitions, r.size⟩ := by
  have hsound : (start config).Sound := sound_start config
  refine ⟨fun steps => ⟨?_, ?_⟩, fun before after n input => ?_⟩
  · exact (Alike.refl _).otherAnswers_run hsound hsound steps
  · exact ((Alike.refl _).run hsound hsound (fun _ => not_isExpansion_of_shapes) steps).registryOf
  · have hregistry : ((start config).run before).1.registryOf n =
        ((start config).run (onlyShaping before)).1.registryOf n :=
      ((Alike.refl _).run hsound hsound (fun _ h => h) before).registryOf n
    have hconfig : (((start config).run before).1.engine n).config =
        (((start config).run (withoutExpansions before)).1.engine n).config := by
      rw [engine_config, engine_config, configs_run rfl before]
    have hplace : before.length = ((start config).run before).2.length := (length_run _ before).symm
    rw [run_append, run_cons, hplace, List.getElem?_append_right (Nat.le_refl _), Nat.sub_self,
      List.getElem?_cons_zero, (hsound.run before).answer_expand n input, hregistry, hconfig]

/-- Two engines share their macros, but not what the directives of one text do to them. -/
example :
    ((start ⟨200, true⟩).run [(0, .define "PIE" none "3.14"), (0, .create true ⟨200, true⟩),
      (0, .expand (.text "#define X 1\n#undef PIE\nX PIE")), (1, .expand (.text "X PIE"))]).2.map
        Answer.result =
      [.ok (.defined none), .ok (.created 1), .ok (.expanded "\n\n1 PIE"),
        .ok (.expanded "X 3.14")] := by cbv

end Workspace

end TextMacros
