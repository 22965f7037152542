import SicAssembler.Diagnostic
import SicAssembler.Text.Lines
import SicAssembler.Text.Search

/-!
# Source lines

A statement is a line of three fields: a label, a mnemonic and an operand, where a dash stands for
a label or an operand that is left out. Blank lines and lines that start with a full stop are
comments.
-/

namespace SicAssembler

structure SourceLine where
  label : String
  mnemonic : String
  operand : String
  lineNumber : Int := 0
  filename : String := "<input>"
  text : String := ""
  deriving DecidableEq, Repr

namespace SourceLine

/-- What stands for a label or an operand that is left out. -/
def absent : String := "-"

def hasLabel (l : SourceLine) : Bool := l.label != absent

def location (l : SourceLine) : Location := ⟨l.filename, l.lineNumber, 0⟩

/-- The column of the operand: where it stands last in the line, or zero. -/
def operandColumn (l : SourceLine) : Nat :=
  if l.text = "" then 0
  else match Text.lastIndex? l.operand.toList l.text.toList with
    | some i => i + 1
    | none => 0

def operandLocation (l : SourceLine) : Location := ⟨l.filename, l.lineNumber, l.operandColumn⟩

def fields (l : SourceLine) : String := s!"\t{l.label}\t{l.mnemonic}\t{l.operand}"

def operandFault (l : SourceLine) (p : Problem) : Diagnostic :=
  ⟨p, some l.operandLocation, some l.text, none⟩

/-- Whether a line is blank or starts with a full stop. -/
def isComment (text : String) : Bool :=
  match text.toList.dropWhile Text.isBlank with
  | [] => true
  | c :: _ => c == '.'

def parse (text : String) (lineNumber : Int) (filename : String) : Except Diagnostic SourceLine :=
  let raw := Text.chomp text
  match Text.fields raw with
  | [label, mnemonic, operand] => .ok ⟨label, mnemonic, operand, lineNumber, filename, raw⟩
  | found => .error ⟨.sourceFields found.length, some ⟨filename, lineNumber, 0⟩, some raw, none⟩

/-- Reads the statements of lines numbered from `n` on; comments are left out. -/
def statementsFrom (filename : String) : Nat → List String → List (Except Diagnostic SourceLine)
  | _, [] => []
  | n, text :: rest =>
    if isComment text then statementsFrom filename (n + 1) rest
    else parse text n filename :: statementsFrom filename (n + 1) rest

def statements (filename : String) (lines : List String) : List (Except Diagnostic SourceLine) :=
  statementsFrom filename 1 lines

/-- The statements before the first one that cannot be read, and what is wrong with that one. -/
def readable : List (Except Diagnostic SourceLine) → List SourceLine × Option Diagnostic
  | [] => ([], none)
  | .error d :: _ => ([], some d)
  | .ok line :: rest => (line :: (readable rest).1, (readable rest).2)

end SourceLine

end SicAssembler
