import SicAssembler.Dictionary
import SicAssembler.Logged
import SicAssembler.SourceLine

/-!
# Opcode tables

The mnemonics of instructions with their codes. A table is read from lines of two fields; blank
lines are left out, and a mnemonic that comes again takes its last code.
-/

namespace SicAssembler

structure OpcodeEntry where
  mnemonic : String
  code : String
  deriving DecidableEq, Repr

namespace OpcodeEntry

def text (e : OpcodeEntry) : String := s!"{e.mnemonic} {e.code}"

def parse (text : String) (lineNumber : Int) (filename : String) :
    Except Diagnostic OpcodeEntry :=
  let fault (p : Problem) : Diagnostic :=
    ⟨p, some ⟨filename, lineNumber, 0⟩, some (Text.chomp text), none⟩
  match Text.fields text with
  | [mnemonic, code] =>
    if Text.isHex code then .ok ⟨mnemonic, Text.upper code⟩
    else .error (fault (.opcodeNotHex code mnemonic))
  | found => .error (fault (.opcodeFields found.length))

/-- Reads the lines of a table, numbered from `n` on. -/
def parseFrom (filename : String) : Nat → List String → Except Diagnostic (List OpcodeEntry)
  | _, [] => .ok []
  | n, text :: rest =>
    if (Text.fields text).isEmpty then parseFrom filename (n + 1) rest
    else match parse text n filename with
      | .ok entry => (parseFrom filename (n + 1) rest).map (entry :: ·)
      | .error d => .error d

end OpcodeEntry

/-- Codes by mnemonic. -/
abbrev OpcodeTable := Dictionary String

namespace OpcodeTable

variable {ε : Type}

/-- Adds an entry. A mnemonic that had another code is reported. -/
def add (table : OpcodeTable) (e : OpcodeEntry) : Logged ε OpcodeTable :=
  let after := table.insert e.mnemonic e.code
  match table.get? e.mnemonic with
  | some before =>
    if before = e.code then pure after
    else ⟨[.opcodeRedefined e.mnemonic before e.code], .ok after⟩
  | none => pure after

def addAll (table : OpcodeTable) : List OpcodeEntry → Logged ε OpcodeTable
  | [] => pure table
  | e :: rest => do
    let table ← table.add e
    addAll table rest

def ofEntries (es : List OpcodeEntry) : Logged ε OpcodeTable := addAll .empty es

def toEntries (table : OpcodeTable) : List OpcodeEntry :=
  table.entries.map fun (mnemonic, code) => ⟨mnemonic, code⟩

def summary (table : OpcodeTable) : String := s!"OpcodeTable({table.size} mnemonics)"

def load (filename : String) (lines : List String) : Logged Diagnostic OpcodeTable := do
  let entries ← Logged.ofExcept (OpcodeEntry.parseFrom filename 1 lines)
  let table ← ofEntries entries
  Logged.note (.opcodesLoaded table.size filename)
  pure table

def standard : OpcodeTable :=
  ⟨[("ADD", "18"), ("AND", "40"), ("COMP", "28"), ("DIV", "24"), ("J", "3C"), ("JEQ", "30"),
    ("JGT", "34"), ("JLT", "38"), ("JSUB", "48"), ("LDA", "00"), ("LDCH", "50"), ("LDL", "08"),
    ("LDX", "04"), ("MUL", "20"), ("OR", "44"), ("RD", "D8"), ("RSUB", "4C"), ("STA", "0C"),
    ("STCH", "54"), ("STL", "14"), ("STSW", "E8"), ("STX", "10"), ("SUB", "1C"), ("TD", "E0"),
    ("TIX", "2C"), ("WD", "DC")]⟩

end OpcodeTable

inductive OpcodeSource where
  | standard
  | ready (table : OpcodeTable)
  | text (contents : String)
  | lines (contents : List String)

def OpcodeSource.load (filename : String) : OpcodeSource → Logged Diagnostic OpcodeTable
  | standard => pure OpcodeTable.standard
  | ready table => pure table
  | text contents => OpcodeTable.load filename (Text.lines contents)
  | lines contents => OpcodeTable.load filename contents

end SicAssembler
