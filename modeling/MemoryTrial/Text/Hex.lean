/-! Numbers and bytes written in lowercase hexadecimal, and bytes read back from pairs of digits. -/

namespace MemoryTrial.Text

/-- The hexadecimal digits of `n`, lowercase, most significant first, with no leading zero. -/
def hexDigits (n : Nat) : List Char := Nat.toDigits 16 n

/-- `n` after `0x`, with no leading zero. -/
def hex (n : Nat) : String := "0x" ++ String.ofList (hexDigits n)

/-- `n` after `0x`, with leading zeros up to `width` digits. -/
def hexPadded (width n : Nat) : String :=
  let digits := hexDigits n
  "0x" ++ String.ofList (List.replicate (width - digits.length) '0' ++ digits)

def hexByte (b : UInt8) : String :=
  String.ofList [Nat.digitChar (b.toNat / 16), Nat.digitChar (b.toNat % 16)]

/-- The value of a hexadecimal digit of either case. -/
def hexValue? (c : Char) : Option UInt8 :=
  if '0' ≤ c ∧ c ≤ '9' then some (c.toNat - '0'.toNat).toUInt8
  else if 'a' ≤ c ∧ c ≤ 'f' then some (c.toNat - 'a'.toNat + 10).toUInt8
  else if 'A' ≤ c ∧ c ≤ 'F' then some (c.toNat - 'A'.toNat + 10).toUInt8
  else none

/-- The bytes that pairs of digits write, or `none` for a lone digit or another character. -/
def bytesOfHex? : List Char → Option (List UInt8)
  | [] => some []
  | [_] => none
  | c :: d :: rest => do
    let high ← hexValue? c
    let low ← hexValue? d
    let bytes ← bytesOfHex? rest
    pure ((high * 16 + low) :: bytes)

end MemoryTrial.Text
