import SicAssembler.Text.Hex

/-!
# UTF-8

Characters as bytes and back. Decoding refuses what is not the shortest form of a code point, and
tells at which bytes it stopped and why.
-/

namespace SicAssembler.Text

def encodeChar (c : Char) : List UInt8 :=
  let n := c.toNat
  if n < 0x80 then [UInt8.ofNat n]
  else if n < 0x800 then [UInt8.ofNat (0xC0 + n / 64), UInt8.ofNat (0x80 + n % 64)]
  else if n < 0x10000 then
    [UInt8.ofNat (0xE0 + n / 4096), UInt8.ofNat (0x80 + n / 64 % 64), UInt8.ofNat (0x80 + n % 64)]
  else
    [UInt8.ofNat (0xF0 + n / 262144), UInt8.ofNat (0x80 + n / 4096 % 64),
      UInt8.ofNat (0x80 + n / 64 % 64), UInt8.ofNat (0x80 + n % 64)]

def encode (s : String) : List UInt8 := s.toList.flatMap encodeChar

inductive Utf8Reason where
  | startByte
  | continuation
  | endOfData
  deriving DecidableEq, Repr

def Utf8Reason.text : Utf8Reason → String
  | .startByte => "invalid start byte"
  | .continuation => "invalid continuation byte"
  | .endOfData => "unexpected end of data"

/-- Bytes that are not UTF-8: their first position, how many more belong to them, the first byte. -/
structure Utf8Fault where
  position : Nat
  more : Nat
  byte : UInt8
  reason : Utf8Reason
  deriving DecidableEq, Repr

def Utf8Fault.text (f : Utf8Fault) : String :=
  let place :=
    if f.more = 0 then s!"byte 0x{smallHex 2 f.byte.toNat} in position {f.position}"
    else s!"bytes in position {f.position}-{f.position + f.more}"
  s!"'utf-8' codec can't decode {place}: {f.reason.text}"

def isContinuation (b : Nat) : Bool := 0x80 ≤ b && b ≤ 0xBF

/-- Whether `b` may follow the lead byte `lead`: continuations, less those that would give an
overlong form, a surrogate or a value above the last code point. -/
def isSecond (lead b : Nat) : Bool :=
  isContinuation b && !(lead == 0xE0 && b < 0xA0) && !(lead == 0xED && 0x9F < b) &&
    !(lead == 0xF0 && b < 0x90) && !(lead == 0xF4 && 0x8F < b)

def consChar (n : Nat) (rest : Except Utf8Fault (List Char)) : Except Utf8Fault (List Char) :=
  rest.map (Char.ofNat n :: ·)

/-- Decodes bytes of which the first is at position `pos`. -/
def decodeFrom (pos : Nat) : List UInt8 → Except Utf8Fault (List Char)
  | [] => .ok []
  | b :: rest =>
    let n := b.toNat
    if n < 0x80 then consChar n (decodeFrom (pos + 1) rest)
    else if n < 0xC2 || 0xF4 < n then .error ⟨pos, 0, b, .startByte⟩
    else match rest with
      | [] => .error ⟨pos, 0, b, .endOfData⟩
      | c :: rest =>
        let m := c.toNat
        if !isSecond n m then .error ⟨pos, 0, b, .continuation⟩
        else if n < 0xE0 then consChar (n % 32 * 64 + m % 64) (decodeFrom (pos + 2) rest)
        else match rest with
          | [] => .error ⟨pos, 1, b, .endOfData⟩
          | d :: rest =>
            let k := d.toNat
            if !isContinuation k then .error ⟨pos, 1, b, .continuation⟩
            else if n < 0xF0 then
              consChar (n % 16 * 4096 + m % 64 * 64 + k % 64) (decodeFrom (pos + 3) rest)
            else match rest with
              | [] => .error ⟨pos, 2, b, .endOfData⟩
              | e :: rest =>
                let j := e.toNat
                if !isContinuation j then .error ⟨pos, 2, b, .continuation⟩
                else consChar (n % 8 * 262144 + m % 64 * 4096 + k % 64 * 64 + j % 64)
                  (decodeFrom (pos + 4) rest)

def decode (bs : List UInt8) : Except Utf8Fault (List Char) := decodeFrom 0 bs

end SicAssembler.Text
