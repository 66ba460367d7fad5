/-!
# Base64

`base64Decode` reads octets from a text in base 64. Characters outside the alphabet are passed over;
padding ends the text once it fills up a group of four.
-/

namespace SchemaForms.Text

/-- The value of a character of the alphabet. -/
def base64Value? (c : Char) : Option Nat :=
  if 'A' ≤ c ∧ c ≤ 'Z' then some (c.toNat - 'A'.toNat)
  else if 'a' ≤ c ∧ c ≤ 'z' then some (c.toNat - 'a'.toNat + 26)
  else if '0' ≤ c ∧ c ≤ '9' then some (c.toNat - '0'.toNat + 52)
  else if c = '+' then some 62
  else if c = '/' then some 63
  else none

/-- Why a text cannot be decoded. -/
inductive Base64Fault where
  /-- The last group is not filled up. -/
  | padding
  /-- The last group has one character, which is less than an octet; so many characters count. -/
  | length (characters : Nat)
  deriving DecidableEq, Repr

/-- A group of up to three octets that is being read. -/
structure Base64Group where
  /-- The values of the characters that were read, first to last. -/
  values : List Nat
  /-- How many padding characters follow them. -/
  pads : Nat

/-- The octets of the characters of a group, as many as are complete. -/
def Base64Group.octets (g : Base64Group) : List UInt8 :=
  let number := (g.values ++ [0, 0, 0, 0]).take 4 |>.foldl (fun n v => 64 * n + v) 0
  [number / 65536, number / 256, number].map UInt8.ofNat |>.take (g.values.length - 1)

/-- Decodes a text; `groups` complete groups came before it. -/
def base64DecodeFrom (groups : Nat) (g : Base64Group) : List Char → Except Base64Fault (List UInt8)
  | [] =>
    match g.values.length with
    | 0 => .ok []
    | 1 => .error (.length (4 * groups + 1))
    | _ => .error .padding
  | '=' :: rest =>
    if 2 ≤ g.values.length then
      if 4 ≤ g.values.length + g.pads + 1 then .ok g.octets
      else base64DecodeFrom groups { g with pads := g.pads + 1 } rest
    else base64DecodeFrom groups g rest
  | c :: rest =>
    match base64Value? c with
    | none => base64DecodeFrom groups g rest
    | some v =>
      let g' : Base64Group := ⟨g.values ++ [v], 0⟩
      if g'.values.length = 4 then do
        let more ← base64DecodeFrom (groups + 1) ⟨[], 0⟩ rest
        .ok (g'.octets ++ more)
      else base64DecodeFrom groups g' rest

/-- Decodes a text in base 64. -/
def base64Decode (cs : List Char) : Except Base64Fault (List UInt8) :=
  base64DecodeFrom 0 ⟨[], 0⟩ cs

end SchemaForms.Text
