import TextMacros.Engine
import TextMacros.Proofs.Displacement

/-!
# Passages

A text with directives is the same as the runs of lines between its directive
lines, each expanded alone under the registry that the directives above it
leave behind.
-/

set_option autoImplicit false

namespace TextMacros

/-- The directive that a line is by itself. -/
def directive? (line : Text) : Option Directive := Directive.ofLine? (lexText .text line).tokens

/-- The runs of lines of a text and the directive lines between them. -/
inductive Passages where
  | last (run : List Text)
  | cut (run : List Text) (line : Text) (rest : Passages)

/-- What is left of a directive line. Carriage returns end a last line too. -/
def Text.lineEnd (line : Text) : Text :=
  if line.lineContent.length = line.length then [] else [CodePoint.lineFeed]

def Registry.obey (r : Registry) (line : Text) : Except Failure Registry :=
  match directive? line with
  | none => .ok r
  | some d => ((d.apply r).map Prod.fst).mapError .text

/-- The same fault of the configuration, or errors with the same cause. -/
def Failure.SameCause : Failure → Failure → Prop
  | .config f, .config g => f = g
  | .text e, .text f => e.SameCause f
  | _, _ => False

theorem Failure.SameCause.rfl {f : Failure} : f.SameCause f := by
  cases f with
  | config f => exact Eq.refl f
  | text e => exact ⟨Eq.refl _, Eq.refl _⟩

theorem Failure.SameCause.symm {f g : Failure} (h : f.SameCause g) : g.SameCause f := by
  cases f <;> cases g
  case config.config => exact Eq.symm h
  case text.text => exact ⟨h.1.symm, h.2.symm⟩
  all_goals exact h.elim

theorem Failure.SameCause.trans {e f g : Failure} (h : e.SameCause f) (h' : f.SameCause g) :
    e.SameCause g := by
  cases e <;> cases f <;> cases g
  case config.config.config => exact Eq.trans h h'
  case text.text.text => exact ⟨h.1.trans h'.1, h.2.trans h'.2⟩
  all_goals first | exact h.elim | exact h'.elim

/-- A failure that reports an error of the same cause. -/
def Error.ReportedAs (e : Error) (f : Failure) : Prop := (Failure.text e).SameCause f

theorem expandInput_fault {c : Config} {fault : Config.Fault} (h : c.fault? = some fault)
    (r : Registry) (input : Input) :
    (expandInput r c input).result = .error (.config fault) := by
  simp [expandInput, h]

namespace Passages

def prepend (line : Text) : Passages → Passages
  | last run => last (line :: run)
  | cut run other rest => cut (line :: run) other rest

def ofLines : List Text → Passages
  | [] => last []
  | line :: rest =>
    match directive? line with
    | none => (ofLines rest).prepend line
    | some _ => cut [] line (ofLines rest)

/-- Each run alone, without directives, and a line break for each directive line. -/
def expand (depth : Int) (r : Registry) : Passages → Except Failure Text
  | last run => (expandInput r ⟨depth, false⟩ (.text run.flatten)).result
  | cut run line rest => do
    let above ← (expandInput r ⟨depth, false⟩ (.text run.flatten)).result
    let below ← rest.expand depth (← r.obey line)
    return above ++ line.lineEnd ++ below

/-- The runs are as long as they can be, and nothing is lost. -/
inductive Divides : List Text → Passages → Prop where
  | last {run : List Text} (hn : ∀ l ∈ run, directive? l = none) : Divides run (last run)
  | cut {run : List Text} {line : Text} {rest : List Text} {p : Passages} {d : Directive}
      (hn : ∀ l ∈ run, directive? l = none) (hd : directive? line = some d)
      (hr : Divides rest p) : Divides (run ++ line :: rest) (cut run line p)

theorem Divides.prepend {ls : List Text} {p : Passages} (h : Divides ls p) {line : Text}
    (hd : directive? line = none) : Divides (line :: ls) (p.prepend line) := by
  cases h with
  | last hn =>
    have hn' : ∀ l ∈ line :: ls, directive? l = none := by simpa using ⟨hd, hn⟩
    exact .last hn'
  | @cut run other rest p d hn hd' hr =>
    have hn' : ∀ l ∈ line :: run, directive? l = none := by simpa using ⟨hd, hn⟩
    exact .cut hn' hd' hr

theorem divides_ofLines (ls : List Text) : Divides ls (ofLines ls) := by
  induction ls with
  | nil => exact .last (by simp)
  | cons line ls ih =>
    rw [ofLines]
    split
    · next hd => exact ih.prepend hd
    · next d hd =>
      have hcut : Divides ([] ++ line :: ls) (cut [] line (ofLines ls)) := .cut (by simp) hd ih
      exact hcut


/-- A directive line between the last run of some passages and the first of others. -/
def join : Passages → Text → Passages → Passages
  | last run, line, below => cut run line below
  | cut run other rest, line, below => cut run other (rest.join line below)

theorem join_prepend (other : Text) (p : Passages) (line : Text) (below : Passages) :
    (p.prepend other).join line below = (p.join line below).prepend other := by
  cases p <;> rfl

theorem ofLines_join {line : Text} (hd : (directive? line).isSome) (above below : List Text) :
    ofLines (above ++ line :: below) = (ofLines above).join line (ofLines below) := by
  induction above with
  | nil =>
    obtain ⟨d, hl⟩ := Option.isSome_iff_exists.mp hd
    simp [ofLines, join, hl]
  | cons other above ih =>
    rw [List.cons_append, ofLines, ofLines, ih]
    cases directive? other with
    | none => exact (join_prepend other _ line _).symm
    | some d => rfl

/-- Whatever stands below a directive line, the passages above it come first. -/
theorem expand_join (depth : Int) (p : Passages) (line : Text) (below : Passages) (r : Registry) :
    ∃ bottom, (p.join line below).expand depth r = (do
      let top ← p.expand depth r
      let rest ← bottom
      return top ++ rest) := by
  induction p generalizing r with
  | last run =>
    refine ⟨do let rest ← below.expand depth (← r.obey line); return line.lineEnd ++ rest, ?_⟩
    simp only [join, expand, bind_assoc, pure_bind, List.append_assoc]
  | cut run other rest ih =>
    cases hr : r.obey other with
    | error e =>
      refine ⟨.ok [], ?_⟩
      simp only [join, expand, hr]
      cases (expandInput r ⟨depth, false⟩ (.text run.flatten)).result <;> rfl
    | ok r' =>
      obtain ⟨bottom, hb⟩ := ih r'
      refine ⟨bottom, ?_⟩
      have hobey : ∀ f : Registry → Except Failure Text, (r.obey other >>= f) = f r' := by
        intro f
        rw [hr]
        rfl
      simp only [join, expand, hobey, hb, bind_assoc, pure_bind, List.append_assoc]

theorem expand_fault {depth : Int} {fault : Config.Fault}
    (h : Config.fault? ⟨depth, false⟩ = some fault) (p : Passages) (r : Registry) :
    p.expand depth r = .error (.config fault) := by
  cases p with
  | last run => rw [expand, expandInput_fault h]
  | cut run line rest => rw [expand, expandInput_fault h]; rfl

end Passages

end TextMacros
