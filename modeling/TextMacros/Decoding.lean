import TextMacros.Error
import TextMacros.Text.Utf8

/-!
# Decoding piece by piece

Bytes are cut into rows before they are decoded, so that a failure tells its
row, and its column in bytes. The rows of a file end with a line feed; those
of other input end with a line feed, a carriage return or the pair.
-/

set_option autoImplicit false

namespace TextMacros

/-- The texts decoded before the failure, if there is one. -/
structure TextStream where
  pieces : List Text
  failure : Option Error
  deriving DecidableEq, Repr

namespace TextStream

def toExcept (s : TextStream) : Except Error Text :=
  match s.failure with
  | some e => .error e
  | none => .ok s.pieces.flatten

end TextStream

namespace Bytes

def lineFeed : UInt8 := 0x0A

def carriageReturn : UInt8 := 0x0D

def fileRows (bytes : Bytes) : List Bytes := cutAfter (fun b _ => b = lineFeed) bytes

/-- A carriage return ends a row unless a line feed follows it. -/
def endsRow (b : UInt8) (rest : Bytes) : Bool :=
  b = lineFeed || (b = carriageReturn && rest.head? ≠ some lineFeed)

def rows (bytes : Bytes) : List Bytes := cutAfter endsRow bytes

end Bytes

def malformedBytes (row : Nat) (failure : Utf8.Failure) : Error :=
  .malformedText ⟨row, failure.start, .text⟩ failure.flaw.reason

def decodeRowsFrom (row : Nat) : List Bytes → TextStream
  | [] => ⟨[], none⟩
  | bytes :: rest =>
    match Utf8.decode bytes with
    | .error failure => ⟨[], some (malformedBytes row failure)⟩
    | .ok t =>
      let below := decodeRowsFrom (row + 1) rest
      ⟨t :: below.pieces, below.failure⟩

def decodeRows (rows : List Bytes) : TextStream := decodeRowsFrom 0 rows

def decodeFile (bytes : Bytes) : Except Error Text := (decodeRows bytes.fileRows).toExcept

/-- What is to be expanded, decoded already or not. -/
inductive Input where
  | text (t : Text)
  | bytes (bs : Bytes)
  deriving DecidableEq, Repr

def Input.decode : Input → Except Error Text
  | text t => .ok t
  | bytes bs => (decodeRows bs.rows).toExcept

end TextMacros
