import SicAssembler.Text.Hex
import SicAssembler.Text.Printable

/-!
# Quoted text

A text is shown between apostrophes, or between double quotes if it holds an apostrophe and no
double quote. The quote itself, the backslash and what is not printable are escaped.
-/

namespace SicAssembler.Text

def quoteFor (cs : List Char) : Char :=
  if cs.contains '\'' && !cs.contains '"' then '"' else '\''

/-- The escape of a character that is not printable: two, four or eight hexadecimal digits. -/
def codeEscape (c : Char) : String :=
  if c.toNat < 0x100 then "\\x" ++ smallHex 2 c.toNat
  else if c.toNat < 0x10000 then "\\u" ++ smallHex 4 c.toNat
  else "\\U" ++ smallHex 8 c.toNat

def escaped (quote c : Char) : String :=
  if c = quote ∨ c = '\\' then String.ofList ['\\', c]
  else if c = '\n' then "\\n"
  else if c = '\r' then "\\r"
  else if c = '\t' then "\\t"
  else if isPrintable c then String.ofList [c]
  else codeEscape c

def quoted (s : String) : String :=
  let quote := quoteFor s.toList
  String.ofList [quote] ++ String.join (s.toList.map (escaped quote)) ++ String.ofList [quote]

end SicAssembler.Text
