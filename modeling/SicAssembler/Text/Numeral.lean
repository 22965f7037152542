import SicAssembler.Text.Blank
import SicAssembler.Text.DecimalDigit

/-!
# Reading whole numbers

A numeral may stand between blanks and carry one sign. Its digits may be those of any script and
may be grouped by single underscores. In base sixteen the ASCII letters are digits too, and the
digits may follow the mark `0x`.
-/

namespace SicAssembler.Text

/-- The blanks allowed around a numeral. The ASCII information separators are not among them. -/
def isNumeralBlank (c : Char) : Bool := isBlank c && !(0x1C ≤ c.toNat && c.toNat ≤ 0x1F)

/-- The value of a digit up to base sixteen: a decimal digit of any script or an ASCII letter. -/
def digitValue? (c : Char) : Option Nat :=
  match decimalValue? c with
  | some d => some d
  | none =>
    let n := c.toNat
    if 65 ≤ n ∧ n ≤ 70 then some (n - 55)
    else if 97 ≤ n ∧ n ≤ 102 then some (n - 87)
    else none

def digitIn? (base : Nat) (c : Char) : Option Nat := (digitValue? c).filter (· < base)

/-- The values of one or more digits, with single underscores between them. -/
def digitRun? (base : Nat) : List Char → Option (List Nat)
  | [] => none
  | [c] => (digitIn? base c).map ([·])
  | c :: '_' :: cs => (digitIn? base c).bind fun d => (digitRun? base cs).map (d :: ·)
  | c :: cs => (digitIn? base c).bind fun d => (digitRun? base cs).map (d :: ·)

def positional (base : Nat) (ds : List Nat) : Nat := ds.foldl (fun v d => v * base + d) 0

def splitSign : List Char → Bool × List Char
  | '-' :: cs => (true, cs)
  | '+' :: cs => (false, cs)
  | cs => (false, cs)

def dropUnderscore : List Char → List Char
  | '_' :: cs => cs
  | cs => cs

/-- Drops the mark `0x`, of which the zero may be of any script, and one underscore after it. -/
def dropHexMark : List Char → List Char
  | z :: x :: cs =>
    if decimalValue? z = some 0 ∧ (x = 'x' ∨ x = 'X') then dropUnderscore cs else z :: x :: cs
  | cs => cs

def signed (negative : Bool) (n : Nat) : Int := if negative then -n else n

def decimalDigitLimit : Nat := 4300

def decimal? (s : String) : Option Int :=
  let (negative, cs) := splitSign (dropAround isNumeralBlank s.toList)
  match digitRun? 10 cs with
  | some ds =>
    if ds.length ≤ decimalDigitLimit then some (signed negative (positional 10 ds)) else none
  | none => none

def hexadecimal? (s : String) : Option Int :=
  let (negative, cs) := splitSign (dropAround isNumeralBlank s.toList)
  (digitRun? 16 (dropHexMark cs)).map fun ds => signed negative (positional 16 ds)

end SicAssembler.Text
