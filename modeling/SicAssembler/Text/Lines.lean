import SicAssembler.Text.Blank

/-!
# Lines of a text

A line ends at a line feed, a carriage return, the two together, or one of the other line
separators. What follows the last line end is a line only if it is not empty.
-/

namespace SicAssembler.Text

def isLineEnd (c : Char) : Bool :=
  let n := c.toNat
  (0x0A ≤ n && n ≤ 0x0D) || (0x1C ≤ n && n ≤ 0x1E) || n == 0x85 || n == 0x2028 || n == 0x2029

def lineRuns : List Char → List (List Char)
  | [] => []
  | '\r' :: '\n' :: cs => [] :: lineRuns cs
  | c :: cs => if isLineEnd c then [] :: lineRuns cs else attach c (lineRuns cs)

def lines (s : String) : List String := (lineRuns s.toList).map String.ofList

/-- Turns each carriage return, with the line feed after it if there is one, into a line feed. -/
def foldNewlines : List Char → List Char
  | [] => []
  | '\r' :: '\n' :: cs => '\n' :: foldNewlines cs
  | c :: cs => (if c = '\r' then '\n' else c) :: foldNewlines cs

def chomp (s : String) : String :=
  String.ofList (dropEndWhile (fun c => c = '\r' || c = '\n') s.toList)

/-- The text that holds the given lines, each ended by a line feed. -/
def unlines (ls : List String) : String := String.join (ls.map (· ++ "\n"))

end SicAssembler.Text
