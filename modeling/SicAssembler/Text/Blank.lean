/-!
# Blank characters and fields

A text is cut into fields at its blank characters: a field is a maximal run of characters of
which none is blank.
-/

namespace SicAssembler.Text

/-- The blank characters: the ASCII separators and the spaces and line ends of Unicode. -/
def isBlank (c : Char) : Bool :=
  let n := c.toNat
  (0x09 ≤ n && n ≤ 0x0D) || (0x1C ≤ n && n ≤ 0x20) || n == 0x85 || n == 0xA0 || n == 0x1680 ||
    (0x2000 ≤ n && n ≤ 0x200A) || n == 0x2028 || n == 0x2029 || n == 0x202F || n == 0x205F ||
    n == 0x3000

/-- Puts `c` in front of the first run, or starts a run when there is none. -/
def attach (c : Char) : List (List Char) → List (List Char)
  | [] => [[c]]
  | run :: runs => (c :: run) :: runs

def cutAt (mark : Char) : List Char → List (List Char)
  | [] => [[]]
  | c :: cs => if c = mark then [] :: cutAt mark cs else attach c (cutAt mark cs)

def startsField : List Char → Bool
  | [] => false
  | c :: _ => !isBlank c

/-- The maximal runs of characters that are not blank, in order. -/
def runs : List Char → List (List Char)
  | [] => []
  | c :: cs =>
    if isBlank c then runs cs
    else if startsField cs then attach c (runs cs)
    else [c] :: runs cs

def fields (s : String) : List String := (runs s.toList).map String.ofList

def dropEndWhile (p : Char → Bool) (cs : List Char) : List Char :=
  (cs.reverse.dropWhile p).reverse

def dropAround (p : Char → Bool) (cs : List Char) : List Char :=
  dropEndWhile p (cs.dropWhile p)

def trim (s : String) : String := String.ofList (dropAround isBlank s.toList)

def lower (s : String) : String := String.ofList (s.toList.map Char.toLower)

def upper (s : String) : String := String.ofList (s.toList.map Char.toUpper)

end SicAssembler.Text
