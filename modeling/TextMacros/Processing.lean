import TextMacros.Config
import TextMacros.Directive
import TextMacros.Expansion

/-!
# Processing a text

Without directives a text is expanded as a whole. With directives it is
expanded in chunks between directive lines, each under the definitions above
it. A directive line leaves nothing behind but its line break.
-/

set_option autoImplicit false

namespace TextMacros

/-- All that processing leaves behind, up to the failure if there is one. -/
structure Processed where
  tokens : List Token
  failure : Option Error
  redefinitions : List Redefinition
  registry : Registry
  guard : Guard

namespace Processed

/-- Nothing but a last expansion. -/
def ofExpanded (r : Registry) (x : Expanded) : Processed :=
  match x.result with
  | .error e => ⟨[], some e, [], r, x.guard⟩
  | .ok ts => ⟨ts, none, [], r, x.guard⟩

def after (tokens : List Token) (redefinitions : List Redefinition) (p : Processed) : Processed :=
  { p with tokens := tokens ++ p.tokens, redefinitions := redefinitions ++ p.redefinitions }

end Processed

def tokenLines (ts : List Token) : List (List Token) := cutAfter (fun t _ => t.kind = .eol) ts

def lineBreak (line : List Token) : List Token := line.filter fun t => t.kind = .eol

/-- The lines of a text between its directive lines. Of a directive line only
its line break is kept. -/
inductive Chunks where
  | last (chunk : List Token)
  | cut (chunk : List Token) (d : Directive) (lineBreak : List Token) (rest : Chunks)
  deriving Repr

namespace Chunks

def prepend (line : List Token) : Chunks → Chunks
  | last chunk => last (line ++ chunk)
  | cut chunk d lineBreak rest => cut (line ++ chunk) d lineBreak rest

def ofLines : List (List Token) → Chunks
  | [] => last []
  | line :: rest =>
    match Directive.ofLine? line with
    | none => (ofLines rest).prepend line
    | some d => cut [] d (lineBreak line) (ofLines rest)

/-- Where the text cannot be read to its end, the last chunk is lost. -/
def process (limit : Int) (failure : Option Error) (r : Registry) (g : Guard) :
    Chunks → Processed
  | last chunk =>
    match failure with
    | some e => ⟨[], some e, [], r, g⟩
    | none => .ofExpanded r (expand r limit 0 g chunk)
  | cut chunk d lineBreak rest =>
    let x := expand r limit 0 g chunk
    match x.result with
    | .error e => ⟨[], some e, [], r, x.guard⟩
    | .ok ts =>
      match d.apply r with
      | .error e => ⟨ts, some e, [], r, x.guard⟩
      | .ok (r, redefinition) =>
        (process limit failure r x.guard rest).after (ts ++ lineBreak) redefinition.toList

end Chunks

def process (c : Config) (r : Registry) (g : Guard) (s : TokenStream) : Processed :=
  if c.directives then (Chunks.ofLines (tokenLines s.tokens)).process c.depth s.failure r g
  else match s.failure with
    | some e => ⟨[], some e, [], r, g⟩
    | none => .ofExpanded r (expand r c.depth 0 g s.tokens)

/-- Without directives a text leaves the registry as it is. -/
theorem process_registry {c : Config} (h : c.directives = false) (r : Registry) (g : Guard)
    (s : TokenStream) : (process c r g s).registry = r := by
  rw [process, if_neg (by simp [h])]
  cases s.failure with
  | some e => rfl
  | none =>
    unfold Processed.ofExpanded
    dsimp only
    split <;> rfl

end TextMacros
