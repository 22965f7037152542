/-!
# The last place where one text stands in another
-/

namespace SicAssembler.Text

/-- The greatest position at which `needle` starts in the given characters. -/
def lastIndex? (needle : List Char) : List Char → Option Nat
  | [] => if needle.isEmpty then some 0 else none
  | c :: cs =>
    match lastIndex? needle cs with
    | some i => some (i + 1)
    | none => if needle.isPrefixOf (c :: cs) then some 0 else none

end SicAssembler.Text
