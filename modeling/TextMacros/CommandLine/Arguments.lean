import TextMacros.CommandLine.Word
import TextMacros.Text.Integer
import TextMacros.Text.Quoted

/-!
# Reading the command line

Words are read from left to right. The first word that is no switch is the
source; after two hyphens no word is a switch. Words that nothing has use for
are complained of together, and only if all the others were understood.
-/

set_option autoImplicit false

namespace TextMacros

/-- The greatest depth, as far as the words tell it. -/
inductive DepthLimit where
  | usual
  | missing
  | given (depth : Int)
  deriving DecidableEq, Repr

/-- A definition or undefinition is missing where its switch was given none. -/
structure Arguments where
  source : Option Text := none
  definitions : List (Option Text) := []
  undefinitions : List (Option Text) := []
  directives : Bool := true
  depth : DepthLimit := .usual
  verbose : Bool := false
  warnings : Bool := true
  friendlyErrors : Bool := true
  version : Bool := false
  deriving DecidableEq, Repr

/-- Why no arguments come of the words. -/
inductive Refusal where
  | helpWanted
  | valueMissing (s : Switch)
  | valueIgnored (s : Switch) (value : Text)
  | noInteger (s : Switch) (value : Text)
  | unrecognized (words : List Text)
  deriving DecidableEq, Repr

namespace Refusal

def ofSwitch (s : Switch) (text : Text) : Text := Text.join ["argument ", s.label, ": ", text]

def message : Refusal → Text
  | helpWanted => []
  | valueMissing s => ofSwitch s "expected one argument"
  | valueIgnored s value => ofSwitch s (Text.join ["ignored explicit argument ", value.quoted])
  | noInteger s value => ofSwitch s (Text.join ["invalid int value: ", value.quoted])
  | unrecognized words =>
    Text.join ["unrecognized arguments: ", List.intercalate [CodePoint.space] words]

end Refusal

namespace Arguments

/-- Two hyphens as a value stand for none at all. -/
def given (value : Text) : Option Text := if value = Text.separator then none else some value

/-- Takes a switch with its value; those that need none ignore it. -/
def take (a : Arguments) (s : Switch) (value : Text) : Except Refusal Arguments :=
  match s with
  | .help => .error .helpWanted
  | .version => .ok { a with version := true }
  | .define => .ok { a with definitions := a.definitions ++ [given value] }
  | .undefine => .ok { a with undefinitions := a.undefinitions ++ [given value] }
  | .noDirectives => .ok { a with directives := false }
  | .maxDepth =>
    match given value with
    | none => .ok { a with depth := .missing }
    | some text =>
      match text.toInt? with
      | some depth => .ok { a with depth := .given depth }
      | none => .error (.noInteger s text)
  | .verbose => .ok { a with verbose := true }
  | .noWarnings => .ok { a with warnings := false }
  | .rawErrors => .ok { a with friendlyErrors := false }

def takeAll (a : Arguments) (taken : List (Switch × Text)) : Except Refusal Arguments :=
  taken.foldlM (fun a (s, value) => a.take s value) a

end Arguments

/-- The switches of one word; the last of them may want the next word. -/
inductive Cluster where
  | complete (taken : List (Switch × Text))
  | open (taken : List (Switch × Text)) (last : Switch)
  deriving DecidableEq, Repr

namespace Cluster

def cons (s : Switch) : Cluster → Cluster
  | complete taken => complete ((s, []) :: taken)
  | .open taken last => .open ((s, []) :: taken) last

/-- A switch with nothing attached. -/
def single (s : Switch) : Cluster := if s.takesValue then .open [] s else complete [(s, [])]

/-- A switch with `value` attached, in which further one-letter switches may
stand. Only the first equals sign of a word, directly behind a switch, is no
part of the value. -/
def read (s : Switch) (short : Bool) : (value : Text) → Except Refusal Cluster
  | [] => if s.takesValue then .ok (complete [(s, [])]) else .error (.valueIgnored s [])
  | c :: rest =>
    if s.takesValue then .ok (complete [(s, c :: rest)])
    else match if short then Switch.ofSpelling? [CodePoint.hyphen, c] else none with
      | none => .error (.valueIgnored s (c :: rest))
      | some next =>
        if rest.isEmpty then .ok ((single next).cons s) else (read next true rest).map (cons s)

def ofWord (s : Switch) (short : Bool) : Option Text → Except Refusal Cluster
  | none => .ok (single s)
  | some value => read s short value

end Cluster

/-- What has been read, and the words that nothing had use for. -/
structure Reading where
  arguments : Arguments
  extras : List Text

namespace Reading

def leave (r : Reading) (words : List Text) : Reading := { r with extras := r.extras ++ words }

def withSource (r : Reading) (source : Option Text) : Reading :=
  { r with arguments := { r.arguments with source := source } }

def takeAll (r : Reading) (taken : List (Switch × Text)) : Except Refusal Reading :=
  (r.arguments.takeAll taken).map fun a => { r with arguments := a }

/-- What follows two hyphens: the source, if there is none yet, and extras. -/
def finish (r : Reading) (rest : List Text) : Reading :=
  if r.arguments.source.isSome then r.leave (Text.separator :: rest)
  else (r.withSource rest.head?).leave rest.tail

/-- Two hyphens directly after the source mean nothing. -/
def words (r : Reading) : List Text → Except Refusal Reading
  | [] => .ok r
  | w :: rest =>
    if w = Text.separator then .ok (r.finish rest)
    else match Word.ofText w with
      | .unknown => (r.leave [w]).words rest
      | .argument =>
        if r.arguments.source.isSome then (r.leave [w]).words rest
        else match rest with
          | [] => .ok (r.withSource (some w))
          | next :: after =>
            if next = Text.separator then .ok ((r.withSource (some w)).leave after)
            else (r.withSource (some w)).words rest
      | .switch s short attached =>
        match Cluster.ofWord s short attached with
        | .error refusal => .error refusal
        | .ok (.complete taken) =>
          match r.takeAll taken with
          | .error refusal => .error refusal
          | .ok r => r.words rest
        | .ok (.open taken last) =>
          match rest with
          | [] => .error (.valueMissing last)
          | value :: after =>
            if Word.isValue value then
              match r.takeAll (taken ++ [(last, value)]) with
              | .error refusal => .error refusal
              | .ok r => r.words after
            else .error (.valueMissing last)

end Reading

def Arguments.read (words : List Text) : Except Refusal Arguments := do
  let r ← Reading.words ⟨{}, []⟩ words
  if r.extras.isEmpty then return r.arguments else throw (.unrecognized r.extras)

end TextMacros
