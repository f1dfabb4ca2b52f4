import TextMacros.Text.Basic
import TextMacros.Text.Cut

/-!
# Strict UTF-8

Decoding stops at the first sequence that is not well formed, and tells where
that sequence begins and what is wrong with it. Overlong forms, surrogates and
values past the last code point show in the second byte.
-/

set_option autoImplicit false

namespace TextMacros

abbrev Bytes := List UInt8

namespace Utf8

inductive Flaw where
  | invalidStart
  | invalidContinuation
  | unexpectedEnd
  deriving DecidableEq, Repr

def Flaw.reason : Flaw → Text
  | invalidStart => "invalid start byte"
  | invalidContinuation => "invalid continuation byte"
  | unexpectedEnd => "unexpected end of data"

/-- What the first byte of a sequence announces: its share of the value, how
many bytes follow, and the bounds of the next one. -/
structure Lead where
  bits : Nat
  more : Nat
  low : Nat
  high : Nat
  deriving DecidableEq, Repr

def lead? (b : Nat) : Option Lead :=
  if b < 0x80 then some ⟨b, 0, 0x80, 0xBF⟩
  else if b < 0xC2 then none
  else if b < 0xE0 then some ⟨b - 0xC0, 1, 0x80, 0xBF⟩
  else if b < 0xF0 then
    some ⟨b - 0xE0, 2, if b = 0xE0 then 0xA0 else 0x80, if b = 0xED then 0x9F else 0xBF⟩
  else if b < 0xF5 then
    some ⟨b - 0xF0, 3, if b = 0xF0 then 0x90 else 0x80, if b = 0xF4 then 0x8F else 0xBF⟩
  else none

/-- Adds six bits for each byte that must follow; only the first of them has
bounds of its own. -/
def complete (value low high : Nat) : Nat → Bytes → Except Flaw CodePoint
  | 0, _ => .ok value
  | _ + 1, [] => .error .unexpectedEnd
  | more + 1, b :: rest =>
    if low ≤ b.toNat ∧ b.toNat ≤ high then
      complete (value * 64 + (b.toNat - 0x80)) 0x80 0xBF more rest
    else .error .invalidContinuation

/-- The value of the sequence that begins with `b`, and how many bytes follow `b` in it. -/
def sequence (b : UInt8) (rest : Bytes) : Except Flaw (CodePoint × Nat) :=
  match lead? b.toNat with
  | none => .error .invalidStart
  | some lead =>
    (complete lead.bits lead.low lead.high lead.more rest).map fun value => (value, lead.more)

structure Failure where
  start : Nat
  flaw : Flaw
  deriving DecidableEq, Repr

def decodeFrom (start : Nat) : Bytes → Except Failure Text
  | [] => .ok []
  | b :: rest =>
    match sequence b rest with
    | .error flaw => .error ⟨start, flaw⟩
    | .ok (value, more) =>
      (decodeFrom (start + 1 + more) (rest.drop more)).map fun t => value :: t
  termination_by bytes => bytes.length
  decreasing_by simp only [List.length_cons, List.length_drop]; omega

def decode (bytes : Bytes) : Except Failure Text := decodeFrom 0 bytes

end Utf8

end TextMacros
