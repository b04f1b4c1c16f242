import Dnssec.Bytes

/-!
# `Dnssec.Text.Hex` — byte strings as hexadecimal text

Bytes are written as two lower-case hexadecimal digits each; reading accepts either case and
refuses an odd number of digits or any other character.  A natural is written as the hexadecimal
text of its minimal big-endian bytes, so zero is the empty text.
-/

namespace Dnssec.Text

/-- The lower-case hexadecimal digit of a value below 16. -/
def hexDigit (v : Nat) : Char :=
  if v < 10 then Char.ofNat (48 + v) else Char.ofNat (87 + v)

/-- The value of a hexadecimal digit of either case. -/
def hexValue? (c : Char) : Option Nat :=
  if '0' ≤ c && c ≤ '9' then some (c.toNat - 48)
  else if 'a' ≤ c && c ≤ 'f' then some (c.toNat - 87)
  else if 'A' ≤ c && c ≤ 'F' then some (c.toNat - 55)
  else none

/-- Two lower-case hexadecimal digits per byte. -/
def toHex (bytes : Bytes) : String :=
  String.ofList (bytes.flatMap fun b => [hexDigit (b.toNat / 16), hexDigit (b.toNat % 16)])

/-- The bytes of a list of hexadecimal digits, two per byte. -/
def bytesOfHexDigits : List Char → Option Bytes
  | [] => some []
  | [_] => none
  | hi :: lo :: rest => do
    let h ← hexValue? hi
    let l ← hexValue? lo
    let tail ← bytesOfHexDigits rest
    pure ((h * 16 + l).toUInt8 :: tail)

/-- The bytes a hexadecimal text denotes. -/
def ofHex? (s : String) : Option Bytes := bytesOfHexDigits s.toList

/-- The hexadecimal text of a natural's minimal big-endian bytes. -/
def natToHex (n : Nat) : String := toHex (Nat.toBytes n)

end Dnssec.Text
