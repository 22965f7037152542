/-!
# Hexadecimal text

Numbers are written in capital hexadecimal digits, padded with zeros to a width; bytes are
written as two digits each.
-/

namespace SicAssembler.Text

def hexDigit (d : Nat) : Char := Char.ofNat (if d < 10 then 48 + d else 55 + d)

/-- The hexadecimal digits of a number, the most significant first, at least one. -/
def hexDigits (n : Nat) : List Char :=
  if n < 16 then [hexDigit n] else hexDigits (n / 16) ++ [hexDigit (n % 16)]
termination_by n

def padZeros (width : Nat) (cs : List Char) : List Char :=
  List.replicate (width - cs.length) '0' ++ cs

/-- A number in hexadecimal on at least `width` characters, of which a minus sign is one. -/
def hexField (width : Nat) : Int → String
  | .ofNat n => String.ofList (padZeros width (hexDigits n))
  | .negSucc n => String.ofList ('-' :: padZeros (width - 1) (hexDigits (n + 1)))

def smallHex (width : Nat) (n : Nat) : String :=
  String.ofList (padZeros width ((hexDigits n).map Char.toLower))

def markedHex : Int → String
  | .ofNat n => "0x" ++ smallHex 1 n
  | .negSucc n => "-0x" ++ smallHex 1 (n + 1)

def hexValue? (c : Char) : Option Nat :=
  let n := c.toNat
  if 48 ≤ n ∧ n ≤ 57 then some (n - 48)
  else if 65 ≤ n ∧ n ≤ 70 then some (n - 55)
  else if 97 ≤ n ∧ n ≤ 102 then some (n - 87)
  else none

def isHexDigit (c : Char) : Bool := (hexValue? c).isSome

/-- Whether a text is hexadecimal: not empty, and digits only. -/
def isHex (s : String) : Bool := !s.toList.isEmpty && s.toList.all isHexDigit

/-- Whether a text denotes whole bytes: an even number of hexadecimal digits. -/
def isHexBytes (s : String) : Bool := s.toList.length % 2 == 0 && s.toList.all isHexDigit

def bytesOfDigits : List Char → List UInt8
  | a :: b :: rest =>
    UInt8.ofNat (16 * (hexValue? a).getD 0 + (hexValue? b).getD 0) :: bytesOfDigits rest
  | _ => []

def hexBytes (s : String) : List UInt8 := bytesOfDigits s.toList

def byteDigits (b : UInt8) : List Char := [hexDigit (b.toNat / 16), hexDigit (b.toNat % 16)]

def hexOfBytes (bs : List UInt8) : String := String.ofList (bs.flatMap byteDigits)

end SicAssembler.Text
