import TextMacros.Text.Quoted

/-!
# Templates

A percent sign begins a field of a template, in whose place an entry of a
table is written. A field may name its entry between parentheses. One that
names none takes the whole table, if nothing was taken before. Two percent
signs stand for one.
-/

set_option autoImplicit false

namespace TextMacros

namespace Template

abbrev Table := List (Text × Text)

/-- What a field can take. -/
inductive Item where
  | table (entries : Table)
  | entry (t : Text)
  deriving DecidableEq, Repr

inductive Fault where
  | keyUnclosed
  | keyUnknown (key : Text)
  | fieldUnfinished
  | widthTooBig
  | precisionTooBig
  | countWanted
  | nothingLeft
  | numberWanted (conversion : CodePoint) (item : Item)
  | integerWanted (conversion : CodePoint) (item : Item)
  | realWanted (item : Item)
  | characterWanted
  | conversionUnknown (conversion : CodePoint) (index : Nat)
  deriving DecidableEq, Repr

def Table.toText (t : Table) : Text :=
  Text.join ["\x7b",
    List.intercalate ", " (t.map fun (key, value) => Text.join [key.quoted, ": ", value.quoted]),
    "\x7d"]

namespace Item

def toText : Item → Text
  | table t => t.toText
  | entry t => t

def quoted : Item → Text
  | table t => t.toText
  | entry t => t.quoted

def kind : Item → Text
  | table _ => "dict"
  | entry _ => "str"

/-- An item as the last letter of a field asks for it. -/
def convert (item : Item) (conversion : CodePoint) (index : Nat) : Except Fault Text :=
  match Char.ofNat conversion with
  | 's' => .ok item.toText
  | 'r' => .ok item.quoted
  | 'a' => .ok item.quoted.inAscii
  | 'd' | 'i' | 'u' => .error (.numberWanted conversion item)
  | 'o' | 'x' | 'X' => .error (.integerWanted conversion item)
  | 'e' | 'E' | 'f' | 'F' | 'g' | 'G' => .error (.realWanted item)
  | 'c' => match item with
    | entry [c] => .ok [c]
    | _ => .error .characterWanted
  | _ => .error (.conversionUnknown conversion index)

end Item

namespace Fault

def hexadecimal (n : Nat) : Text := Text.ofString (String.ofList (Nat.toDigits 16 n))

def message : Fault → Text
  | keyUnclosed => "incomplete format key"
  | keyUnknown key => key.quoted
  | fieldUnfinished => "incomplete format"
  | widthTooBig => "width too big"
  | precisionTooBig => "precision too big"
  | countWanted => "* wants int"
  | nothingLeft => "not enough arguments for format string"
  | numberWanted conversion item =>
    Text.join ["%", [conversion], " format: a real number is required, not ", item.kind]
  | integerWanted conversion item =>
    Text.join ["%", [conversion], " format: an integer is required, not ", item.kind]
  | realWanted item => Text.join ["must be real number, not ", item.kind]
  | characterWanted => "%c requires int or char"
  | conversionUnknown conversion index =>
    let seen : Text := if 31 ≤ conversion ∧ conversion ≤ 126 then [conversion] else "?"
    Text.join ["unsupported format character '", seen, "' (0x", hexadecimal conversion,
      ") at index ", Text.ofInt index]

end Fault

/-- How much room a field gives its item. -/
structure Form where
  leftward : Bool := false
  width : Nat := 0
  precision : Option Nat := none
  deriving DecidableEq, Repr

namespace Form

def greatestWidth : Nat := 9223372036854775807

def greatestPrecision : Nat := 2147483647

/-- A precision cuts texts off, but not single characters. -/
def lay (f : Form) (conversion : CodePoint) (t : Text) : Text :=
  let t := match f.precision with
    | some n => if Char.ofNat conversion = 'c' then t else t.take n
    | none => t
  let gap := List.replicate (f.width - t.length) CodePoint.space
  if f.leftward then t ++ gap else gap ++ t

end Form

/-- The parts of a field in the order in which they may follow one another. -/
inductive Part where
  | flags
  | width
  | point
  | precision
  | modifier
  deriving DecidableEq, Repr

/-- Where in the template a reader stands. -/
inductive Stage where
  | outside
  | opened
  | key (read : Text) (depth : Nat)
  | field (part : Part) (form : Form)
  deriving DecidableEq, Repr

structure Filling where
  index : Nat
  stage : Stage
  /-- What the next field takes. -/
  ready : Option Item
  output : Text
  deriving DecidableEq, Repr

namespace Filling

def start (t : Table) : Filling := ⟨0, .outside, some (.table t), []⟩

def enter (s : Filling) (stage : Stage) : Filling := { s with stage := stage }

def write (s : Filling) (t : Text) : Filling :=
  { s with stage := .outside, output := s.output ++ t }

/-- The last letter of a field. -/
def close (s : Filling) (form : Form) (c : CodePoint) : Except Fault Filling :=
  match s.ready with
  | none => .error .nothingLeft
  | some item =>
    (item.convert c s.index).map fun t => { s with ready := none }.write (form.lay c t)

/-- An asterisk asks for a number, and no item is one. -/
def count (s : Filling) : Except Fault Filling :=
  .error (if s.ready.isSome then .countWanted else .nothingLeft)

def isFlag (c : CodePoint) : Bool :=
  c = CodePoint.hyphen || c = CodePoint.plus || c = CodePoint.space || c = CodePoint.hash || c = 0x30

def isModifier (c : CodePoint) : Bool := c = 0x68 || c = 0x6C || c = 0x4C

def widen (s : Filling) (form : Form) (c : CodePoint) : Except Fault Filling :=
  let width := form.width * 10 + (c - 0x30)
  if Form.greatestWidth < width then .error .widthTooBig
  else .ok (s.enter (.field .width { form with width := width }))

def refine (s : Filling) (form : Form) (c : CodePoint) : Except Fault Filling :=
  let precision := form.precision.getD 0 * 10 + (c - 0x30)
  if Form.greatestPrecision < precision then .error .precisionTooBig
  else .ok (s.enter (.field .precision { form with precision := some precision }))

/-- What belongs to no part of a field ends it. -/
def inside (s : Filling) (part : Part) (form : Form) (c : CodePoint) : Except Fault Filling :=
  if part = .flags ∧ isFlag c then
    .ok (s.enter (.field .flags { form with leftward := form.leftward || c = CodePoint.hyphen }))
  else if (part = .flags ∨ part = .point) ∧ c = CodePoint.asterisk then s.count
  else if (part = .flags ∨ part = .width) ∧ c.isDigit then s.widen form c
  else if (part = .flags ∨ part = .width) ∧ c = CodePoint.dot then
    .ok (s.enter (.field .point { form with precision := some 0 }))
  else if (part = .point ∨ part = .precision) ∧ c.isDigit then s.refine form c
  else if part ≠ .modifier ∧ isModifier c then .ok (s.enter (.field .modifier form))
  else s.close form c

/-- Parentheses inside a key come in pairs. -/
def insideKey (t : Table) (s : Filling) (key : Text) (depth : Nat) (c : CodePoint) :
    Except Fault Filling :=
  if c = CodePoint.closeParen then
    match depth with
    | 0 =>
      match t.lookup key with
      | none => .error (.keyUnknown key)
      | some value =>
        .ok ({ s with ready := some (.entry value) }.enter (.field .flags {}))
    | depth + 1 => .ok (s.enter (.key (key ++ [c]) depth))
  else if c = CodePoint.openParen then .ok (s.enter (.key (key ++ [c]) (depth + 1)))
  else .ok (s.enter (.key (key ++ [c]) depth))

def pass (t : Table) (s : Filling) (c : CodePoint) : Except Fault Filling :=
  match s.stage with
  | .outside => .ok (if c = CodePoint.percent then s.enter .opened else s.write [c])
  | .opened =>
    if c = CodePoint.percent then .ok (s.write [c])
    else if c = CodePoint.openParen then .ok (s.enter (.key [] 0))
    else s.inside .flags {} c
  | .key key depth => s.insideKey t key depth c
  | .field part form => s.inside part form c

def next (t : Table) (s : Filling) (c : CodePoint) : Except Fault Filling :=
  (s.pass t c).map fun s => { s with index := s.index + 1 }

def finish (s : Filling) : Except Fault Text :=
  match s.stage with
  | .outside => .ok s.output
  | .key _ _ => .error .keyUnclosed
  | _ => .error .fieldUnfinished

end Filling

/-- The template with the entries of the table in its fields. -/
def fill (t : Table) (template : Text) : Except Fault Text := do
  (← template.foldlM (Filling.next t) (Filling.start t)).finish

end Template

end TextMacros
