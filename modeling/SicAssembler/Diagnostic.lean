import SicAssembler.Text.Hex

/-!
# Diagnostics

A diagnostic names a problem in a source program or an opcode table, the place where it was found
and the line that stands there, and may advise what to write instead.
-/

namespace SicAssembler

/-- A place in a file. Column zero stands for the whole line. -/
structure Location where
  filename : String
  line : Int
  column : Int := 0
  deriving DecidableEq, Repr

def Location.text (l : Location) : String :=
  if 0 < l.column then s!"{l.filename}:{l.line}:{l.column}" else s!"{l.filename}:{l.line}"

inductive Family where
  | general
  | opcodeEntry
  | sourceLine
  | undefinedSymbol
  | duplicateSymbol
  | directive
  deriving DecidableEq, Repr

inductive Problem where
  | opcodeFields (found : Nat)
  | opcodeNotHex (code mnemonic : String)
  | sourceFields (found : Int)
  | undefinedSymbol (symbol : String) (similar : List String)
  | duplicateSymbol (symbol : String) (address : Int)
  | literalForm (operand : String)
  | literalDigits (operand : String)
  | literalKind (letter : Char)
  | literalCharacter (operand : String)
  | countNotDecimal (mnemonic operand : String)
  | countNegative (mnemonic : String) (count : Int)
  | startNotHex (operand : String)
  | startOutOfRange (operand : String)
  | wordNotDecimal (operand : String)
  | wordTooWide (value : Int)
  | counterOverflow (value : Int)
  | addressTooWide (address : Int) (operand : String)
  | emptySource (filename : String)
  | other (family : Family) (text : String)
  deriving DecidableEq, Repr

namespace Problem

def family : Problem → Family
  | opcodeFields _ | opcodeNotHex _ _ => .opcodeEntry
  | sourceFields _ => .sourceLine
  | undefinedSymbol _ _ => .undefinedSymbol
  | duplicateSymbol _ _ => .duplicateSymbol
  | literalForm _ | literalDigits _ | literalKind _ | literalCharacter _ => .directive
  | countNotDecimal _ _ | countNegative _ _ => .directive
  | startNotHex _ | startOutOfRange _ => .directive
  | wordNotDecimal _ | wordTooWide _ => .directive
  | counterOverflow _ | addressTooWide _ _ | emptySource _ => .general
  | other family _ => family

def message : Problem → String
  | opcodeFields found => s!"expected 2 fields (mnemonic, code), found {found}"
  | opcodeNotHex code mnemonic => s!"opcode '{code}' for '{mnemonic}' is not hexadecimal"
  | sourceFields found => s!"expected 3 fields (label, mnemonic, operand), found {found}"
  | undefinedSymbol symbol _ => s!"undefined symbol '{symbol}'"
  | duplicateSymbol symbol _ => s!"duplicate symbol '{symbol}'"
  | literalForm operand => s!"malformed BYTE literal '{operand}'"
  | literalDigits operand => s!"BYTE literal '{operand}' needs an even number of hex digits"
  | literalKind letter => s!"unknown BYTE literal type '{letter}'"
  | literalCharacter operand => s!"BYTE literal '{operand}' has a character outside one byte"
  | countNotDecimal mnemonic operand => s!"{mnemonic} operand '{operand}' is not a decimal number"
  | countNegative mnemonic count => s!"{mnemonic} cannot reserve a negative amount ({count})"
  | startNotHex operand => s!"START address '{operand}' is not hexadecimal"
  | startOutOfRange operand => s!"START address {operand} is out of range"
  | wordNotDecimal operand => s!"WORD operand '{operand}' is not a decimal number"
  | wordTooWide value => s!"WORD value {value} does not fit in 24 bits"
  | counterOverflow value => s!"location counter overflow: {Text.hexField 1 value} exceeds FFFFFF"
  | addressTooWide address operand =>
    s!"address {Text.hexField 1 address} of '{operand}' does not fit in 4 hex digits"
  | emptySource filename => s!"{filename}: source program is empty"
  | other _ text => text

/-- The names shown as a suggestion, at most three. -/
def suggestion (similar : List String) : String :=
  let names := String.intercalate ", " ((similar.take 3).map fun name => s!"'{name}'")
  s!"did you mean {names}?"

def hint : Problem → Option String
  | sourceFields _ => some "use '-' for an empty label or operand"
  | undefinedSymbol _ similar => if similar.isEmpty then none else some (suggestion similar)
  | duplicateSymbol symbol address =>
    some s!"'{symbol}' is already defined at {Text.hexField 4 address}"
  | literalForm _ => some "write C'text' or X'hexdigits'"
  | literalKind _ => some "use C for characters or X for hexadecimal"
  | _ => none

end Problem

/-- A problem with the place where it was found, the line that stands there, and the advice given
by whoever found it. -/
structure Diagnostic where
  problem : Problem
  location : Option Location := none
  sourceLine : Option String := none
  advice : Option String := none
  deriving DecidableEq, Repr

namespace Diagnostic

def message (d : Diagnostic) : String := d.problem.message

/-- The advice that is shown: what the finder gave, unless it is empty and the problem has advice
of its own. -/
def hint (d : Diagnostic) : Option String :=
  match d.problem.hint, d.advice with
  | none, advice => advice
  | some own, none => some own
  | some own, some advice => if advice = "" then some own else some advice

def heading (d : Diagnostic) : String :=
  match d.location with
  | some l => s!"{l.text}: error: {d.message}"
  | none => s!"error: {d.message}"

def caret (column : Int) : List String :=
  if 0 < column then [String.ofList (List.replicate (3 + column).toNat ' ' ++ ['^'])] else []

/-- The source line and the mark under it, when a place is known. -/
def quotation (d : Diagnostic) : List String :=
  match d.location, d.sourceLine with
  | some l, some text => ("    " ++ text) :: caret l.column
  | _, _ => []

def advisory (d : Diagnostic) : List String :=
  match d.hint with
  | some hint => if hint = "" then [] else [s!"hint: {hint}"]
  | none => []

def text (d : Diagnostic) : String :=
  String.intercalate "\n" (d.heading :: (d.quotation ++ d.advisory))

end Diagnostic

end SicAssembler
