import SicAssembler.Logged

/-!
# The location counter

The address of the next line. It may not pass the last address that six hexadecimal digits hold.
-/

namespace SicAssembler

def maxAddress : Int := 0xFFFFFF

structure LocationCounter where
  start : Int
  value : Int
  deriving DecidableEq, Repr

namespace LocationCounter

def startingAt (start : Int) : LocationCounter := ⟨start, start⟩

/-- Moves on. A counter that passes the last address has moved, but is refused. -/
def advance (c : LocationCounter) (size : Int) : Step LocationCounter Diagnostic :=
  let moved : LocationCounter := ⟨c.start, c.value + size⟩
  if maxAddress < moved.value then
    .refused moved ⟨.counterOverflow moved.value, none, none, none⟩
  else .done moved

def length (c : LocationCounter) : Int := c.value - c.start

def summary (c : LocationCounter) : String :=
  s!"LocationCounter(start={Text.hexField 4 c.start}, value={Text.hexField 4 c.value})"

end LocationCounter

end SicAssembler
