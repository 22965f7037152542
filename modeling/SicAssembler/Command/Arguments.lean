import SicAssembler.Disk.Basic
import SicAssembler.Policy

/-!
# Arguments of the command

What the command is asked to do. How a command line is read is left open here: a reader may look at
the disk, and either gives arguments or ends the run itself, with a usage fault or a text that was
asked for.
-/

namespace SicAssembler

structure Arguments where
  input : String
  optab : Option String := none
  output : Option String := none
  listing : Option String := none
  symbols : Option String := none
  undefinedSymbols : Option UndefinedSymbols := none
  noDuplicates : Bool := false
  print : Bool := false
  verbose : Bool := false
  deriving DecidableEq, Repr

namespace Arguments

def policy (a : Arguments) (p : Policy) : Policy :=
  ⟨a.undefinedSymbols.getD p.undefinedSymbols,
    if a.noDuplicates then .reject else p.duplicateLabels⟩

def objectPath (a : Arguments) : String := a.output.getD (Path.withSuffix ".obj" a.input)

end Arguments

/-- What comes of a command line: the run ends there, or the command is started. -/
inductive Reading where
  | finished (exitCode : Nat) (stdout stderr : String)
  | ready (arguments : Arguments)
  deriving DecidableEq, Repr

/-- A reader of command lines. It is given the disk and gives none back, so it changes no file. -/
abbrev Reader := Disk → List String → Reading

end SicAssembler
