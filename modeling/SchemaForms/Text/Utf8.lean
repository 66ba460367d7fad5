import SchemaForms.Text.Hex

/-!
# UTF-8

`utf8Decode` reads octets as UTF-8 and names the first fault: a sequence is cut off at the octet
that cannot continue it, so an overlong form, half a surrogate pair or a number beyond U+10FFFF is
refused at its second octet.
-/

namespace SchemaForms.Text

/-- What is wrong with a sequence of octets. -/
inductive Utf8Cause where
  | invalidStart
  | invalidContinuation
  | unexpectedEnd
  deriving DecidableEq, Repr

/-- A fault: its cause, its first octet with its position, and how many octets it takes up. -/
structure Utf8Fault where
  cause : Utf8Cause
  octet : UInt8
  position : Nat
  length : Nat
  deriving DecidableEq, Repr

namespace Utf8Fault

/-- The wording of a fault. -/
def wording (f : Utf8Fault) : String :=
  let place :=
    if f.length = 1 then
      "byte 0x" ++ String.ofList (hexPadded 2 f.octet.toNat) ++ " in position " ++
        toString f.position
    else
      "bytes in position " ++ toString f.position ++ "-" ++ toString (f.position + f.length - 1)
  let reason := match f.cause with
    | .invalidStart => "invalid start byte"
    | .invalidContinuation => "invalid continuation byte"
    | .unexpectedEnd => "unexpected end of data"
  "'utf-8' codec can't decode " ++ place ++ ": " ++ reason

end Utf8Fault

/-- The six bits that an octet continues a sequence with. -/
def continuation? (b : UInt8) : Option Nat :=
  if 0x80 ≤ b ∧ b < 0xC0 then some (b.toNat - 0x80) else none

/-- The six bits of the second octet of a sequence that starts with `first`. -/
def secondOctet? (first b : UInt8) : Option Nat :=
  if (first = 0xE0 ∧ b < 0xA0) ∨ (first = 0xED ∧ 0xA0 ≤ b) ∨ (first = 0xF0 ∧ b < 0x90) ∨
      (first = 0xF4 ∧ 0x90 ≤ b) then none
  else continuation? b

/-- What stands at the front of some octets: a character and its length, or a cause and the number
of octets to blame. -/
def utf8Front (first : UInt8) (rest : List UInt8) : Except (Utf8Cause × Nat) (Char × Nat) :=
  if first < 0x80 then .ok (Char.ofNat first.toNat, 1)
  else if first < 0xC2 then .error (.invalidStart, 1)
  else if 0xF5 ≤ first then .error (.invalidStart, 1)
  else match rest with
    | [] => .error (.unexpectedEnd, 1)
    | b :: rest =>
      match secondOctet? first b with
      | none => .error (.invalidContinuation, 1)
      | some second =>
        if first < 0xE0 then .ok (Char.ofNat ((first.toNat - 0xC0) * 64 + second), 2)
        else match rest with
          | [] => .error (.unexpectedEnd, 2)
          | c :: rest =>
            match continuation? c with
            | none => .error (.invalidContinuation, 2)
            | some third =>
              if first < 0xF0 then
                .ok (Char.ofNat (((first.toNat - 0xE0) * 64 + second) * 64 + third), 3)
              else match rest with
                | [] => .error (.unexpectedEnd, 3)
                | d :: _ =>
                  match continuation? d with
                  | none => .error (.invalidContinuation, 3)
                  | some fourth =>
                    .ok (Char.ofNat
                      ((((first.toNat - 0xF0) * 64 + second) * 64 + third) * 64 + fourth), 4)

/-- Decodes octets from a position on. The first `skip` of them belong to a character that has been
read. -/
def utf8DecodeFrom (position : Nat) : (skip : Nat) → List UInt8 → Except Utf8Fault (List Char)
  | _, [] => .ok []
  | skip + 1, _ :: rest => utf8DecodeFrom (position + 1) skip rest
  | 0, first :: rest =>
    match utf8Front first rest with
    | .error (cause, length) => .error ⟨cause, first, position, length⟩
    | .ok (c, length) => do
      let more ← utf8DecodeFrom (position + 1) (length - 1) rest
      .ok (c :: more)

/-- Decodes a whole sequence of octets. -/
def utf8Decode (octets : List UInt8) : Except Utf8Fault String :=
  (utf8DecodeFrom 0 0 octets).map String.ofList

end SchemaForms.Text
