import SicAssembler.SourceLine

/-!
# Byte literals

The operand of a `BYTE` directive is a letter and a payload between apostrophes: `C'EOF'` holds
characters, one byte each, and `X'F1'` holds hexadecimal digits, two a byte.
-/

namespace SicAssembler

/-- What the payload of a literal holds. -/
inductive LiteralKind where
  | characters
  | hexadecimal
  deriving DecidableEq, Repr

def LiteralKind.letter : LiteralKind → String
  | characters => "C"
  | hexadecimal => "X"

def LiteralKind.ofLetter? (c : Char) : Option LiteralKind :=
  if c = 'C' ∨ c = 'c' then some .characters
  else if c = 'X' ∨ c = 'x' then some .hexadecimal
  else none

structure ByteLiteral where
  kind : LiteralKind
  payload : String
  deriving DecidableEq, Repr

namespace ByteLiteral

def read (operand : String) : Except Problem ByteLiteral :=
  match operand.toList with
  | letter :: '\'' :: rest =>
    if rest.getLast? = some '\'' then
      let payload := String.ofList rest.dropLast
      match LiteralKind.ofLetter? letter with
      | some .characters => .ok ⟨.characters, payload⟩
      | some .hexadecimal =>
        if Text.isHexBytes payload then .ok ⟨.hexadecimal, payload⟩
        else .error (.literalDigits operand)
      | none => .error (.literalKind letter)
    else .error (.literalForm operand)
  | _ => .error (.literalForm operand)

/-- The bytes of characters that fit in one byte each. -/
def singleBytes? (cs : List Char) : Option (List UInt8) :=
  if cs.all (·.toNat < 256) then some (cs.map fun c => UInt8.ofNat c.toNat) else none

def code? (b : ByteLiteral) : Option String :=
  match b.kind with
  | .characters => (singleBytes? b.payload.toList).map Text.hexOfBytes
  | .hexadecimal => some (Text.upper b.payload)

def ofLine (line : SourceLine) : Except Diagnostic ByteLiteral :=
  (read line.operand).mapError line.operandFault

def encode (line : SourceLine) : Except Diagnostic String :=
  match ofLine line with
  | .ok b =>
    match b.code? with
    | some code => .ok code
    | none => .error (line.operandFault (.literalCharacter line.operand))
  | .error d => .error d

end ByteLiteral

end SicAssembler
