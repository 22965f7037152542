import SicAssembler.Text.Blank

/-!
# Control sequences

A control sequence tells a terminal how to show what follows: the escape character and an opening
bracket, parameters, intermediates, and one final character. Text that does not go to a terminal
is written without them.
-/

namespace SicAssembler.Text

def escape : Char := '\x1b'

def isParameter (c : Char) : Bool := '0' ≤ c && c ≤ '?'

def isIntermediate (c : Char) : Bool := ' ' ≤ c && c ≤ '/'

def isFinal (c : Char) : Bool := '@' ≤ c && c ≤ '~'

/-- What follows the parameters, the intermediates and the final character, if they are all
there. -/
def afterFinal? (cs : List Char) : Option (List Char) :=
  match (cs.dropWhile isParameter).dropWhile isIntermediate with
  | [] => none
  | c :: rest => if isFinal c then some rest else none

/-- What is shown of an escape character and the characters up to the next one. -/
def shown (cs : List Char) : List Char :=
  match cs with
  | '[' :: body => (afterFinal? body).getD (escape :: cs)
  | _ => escape :: cs

/-- The characters outside control sequences. An escape character stands in a control sequence
only at its head, so the stretches between escape characters can be taken one by one. -/
def outsideSequences (cs : List Char) : List Char :=
  match cutAt escape cs with
  | [] => []
  | first :: rest => first ++ rest.flatMap shown

def withoutSequences (s : String) : String := String.ofList (outsideSequences s.toList)

end SicAssembler.Text
