import SicAssembler.ByteLiteral
import SicAssembler.LocationCounter
import SicAssembler.OpcodeTable
import SicAssembler.SymbolTable
import SicAssembler.Text.Numeral

/-!
# The layout of a program

Each statement gets the address at which it loads, which is where the statement before it ends.
The labels get the addresses of their statements. A `START` statement at the head gives the
program its name and first address; an `END` statement ends it.
-/

namespace SicAssembler

structure Entry where
  address : Int
  line : SourceLine
  deriving DecidableEq, Repr

def Entry.render (e : Entry) : String := Text.hexField 4 e.address ++ e.line.fields

structure Program where
  name : String
  start : Int
  length : Int
  deriving DecidableEq, Repr

/-- A program with addresses: the labels, the statement that starts it, the other statements, and
the address after the last. -/
structure Layout where
  program : Program
  symbols : SymbolTable
  startEntry : Option Entry
  entries : List Entry
  endAddress : Int
  deriving DecidableEq, Repr

namespace Layout

def endEntry (l : Layout) : Option Entry := l.entries.getLast?.filter (·.line.mnemonic = "END")

def listing (l : Layout) : List String := (l.startEntry.toList ++ l.entries).map Entry.render

end Layout

namespace SourceLine

def instructionSize : Nat := 3

def count (l : SourceLine) : Except Diagnostic Nat :=
  match Text.decimal? l.operand with
  | none => .error (l.operandFault (.countNotDecimal l.mnemonic l.operand))
  | some n =>
    if n < 0 then .error (l.operandFault (.countNegative l.mnemonic n)) else .ok n.toNat

/-- The bytes that a statement takes. A `BYTE` statement takes one for each character of its
payload. -/
def size (table : OpcodeTable) (l : SourceLine) : Except Diagnostic Nat :=
  if table.contains l.mnemonic || l.mnemonic = "WORD" then .ok instructionSize
  else if l.mnemonic = "BYTE" then (ByteLiteral.ofLine l).map (·.payload.length)
  else if l.mnemonic = "RESW" then l.count.map (instructionSize * ·)
  else if l.mnemonic = "RESB" then l.count
  else .ok 0

def emptyDirectives : List String := ["RESW", "RESB", "BYTE"]

/-- Whether a statement of the given size is one that the assembler does not know. -/
def isUnknown (l : SourceLine) (size : Nat) : Bool :=
  size == 0 && !emptyDirectives.contains l.mnemonic

def startAddress (l : SourceLine) : Except Diagnostic Int :=
  match Text.hexadecimal? l.operand with
  | none => .error (l.operandFault (.startNotHex l.operand))
  | some start =>
    if 0 ≤ start ∧ start ≤ maxAddress then .ok start
    else .error (l.operandFault (.startOutOfRange l.operand))

def programName (l : SourceLine) : String := if l.hasLabel then l.label else ""

end SourceLine

namespace Layout

/-- The entries of a part of a program, the labels so far and the address after it. -/
structure Scan where
  entries : List Entry
  symbols : SymbolTable
  counter : LocationCounter

/-- Enters the label of a statement, if it has one. -/
def enterLabel (duplicates : DuplicateLabels) (symbols : SymbolTable) (address : Int)
    (line : SourceLine) : Logged Diagnostic SymbolTable :=
  if line.hasLabel then (symbols.define duplicates line.label address (some line)).toLogged
  else pure symbols

def passOver (table : OpcodeTable) (counter : LocationCounter) (line : SourceLine) :
    Logged Diagnostic LocationCounter := do
  let size ← Logged.ofExcept (line.size table)
  Logged.noteIf (line.isUnknown size) (.unknownMnemonic line.location line.mnemonic)
  (counter.advance size).toLogged

/-- Gives addresses to statements up to the one that ends the program. -/
def scan (table : OpcodeTable) (duplicates : DuplicateLabels) (filename : String) :
    LocationCounter → SymbolTable → List (Except Diagnostic SourceLine) → Logged Diagnostic Scan
  | counter, symbols, [] => do
    Logged.note (.noEnd filename)
    pure ⟨[], symbols, counter⟩
  | _, _, .error d :: _ => Logged.fail d
  | counter, symbols, .ok line :: rest =>
    if line.mnemonic = "END" then pure ⟨[⟨counter.value, line⟩], symbols, counter⟩
    else do
      let symbols ← enterLabel duplicates symbols counter.value line
      let after ← passOver table counter line
      let scanned ← scan table duplicates filename after symbols rest
      pure { scanned with entries := ⟨counter.value, line⟩ :: scanned.entries }

def body (table : OpcodeTable) (duplicates : DuplicateLabels) (filename name : String)
    (startEntry : Option Entry) (start : Int) (statements : List (Except Diagnostic SourceLine)) :
    Logged Diagnostic Layout := do
  let scanned ← scan table duplicates filename (.startingAt start) .empty statements
  let program : Program := ⟨name, start, scanned.counter.length⟩
  Logged.note (.layoutComplete scanned.entries.length scanned.symbols.size program.length)
  pure ⟨program, scanned.symbols, startEntry, scanned.entries, scanned.counter.value⟩

def ofStatements (table : OpcodeTable) (duplicates : DuplicateLabels) (filename : String) :
    List (Except Diagnostic SourceLine) → Logged Diagnostic Layout
  | [] => Logged.fail ⟨.emptySource filename, none, none, none⟩
  | .error d :: _ => Logged.fail d
  | .ok first :: rest =>
    if first.mnemonic = "START" then do
      let start ← Logged.ofExcept first.startAddress
      Logged.note (.programStarts first.programName start)
      body table duplicates filename first.programName (some ⟨start, first⟩) start rest
    else do
      Logged.note .noStart
      body table duplicates filename "" none 0 (.ok first :: rest)

def ofLines (table : OpcodeTable) (policy : Policy) (filename : String) (lines : List String) :
    Logged Diagnostic Layout :=
  ofStatements table policy.duplicateLabels filename (SourceLine.statements filename lines)

end Layout

end SicAssembler
