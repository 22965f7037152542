import SicAssembler.Fault
import SicAssembler.Layout
import SicAssembler.Packing
import SicAssembler.Text.Similarity

/-!
# Object programs

The object program of a layout: each statement up to the end emits code at its address, which is
packed into text records between a header and an end record. Storage that is only reserved breaks
the text.
-/

namespace SicAssembler

inductive Emission where
  | unit (code : String)
  | bytes (payload : String)
  | gap
  | nothing
  deriving DecidableEq, Repr

namespace SourceLine

def maxOperandAddress : Int := 0xFFFF

def undefinedOperand (symbols : SymbolTable) (l : SourceLine) : Diagnostic :=
  l.operandFault (.undefinedSymbol l.operand (Text.closeMatches l.operand symbols.keys 3))

def operandAddress (symbols : SymbolTable) (undefinedSymbols : UndefinedSymbols)
    (l : SourceLine) : Logged Diagnostic Int :=
  if l.operand = absent then pure 0
  else match symbols.get? l.operand, undefinedSymbols with
    | none, .strict => Logged.fail (l.undefinedOperand symbols)
    | none, .lenient => ⟨[.undefinedOperand l.location l.operand], .ok 0⟩
    | some address, _ =>
      if maxOperandAddress < address then
        Logged.fail (l.operandFault (.addressTooWide address l.operand))
      else pure address

/-- The code unit of a word: its value in two's complement on 24 bits. -/
def word (l : SourceLine) : Except Diagnostic String :=
  match Text.decimal? l.operand with
  | none => .error (l.operandFault (.wordNotDecimal l.operand))
  | some value =>
    if -0x800000 ≤ value ∧ value ≤ 0xFFFFFF then .ok (Text.hexField 6 (value % 0x1000000))
    else .error (l.operandFault (.wordTooWide value))

/-- What a statement emits. The codes of the table come before the directives. -/
def emission (table : OpcodeTable) (symbols : SymbolTable) (undefinedSymbols : UndefinedSymbols)
    (l : SourceLine) : Logged Diagnostic Emission :=
  match table.get? l.mnemonic with
  | some code => do
    let address ← l.operandAddress symbols undefinedSymbols
    pure (.unit (code ++ Text.hexField 4 address))
  | none =>
    if l.mnemonic = "WORD" then Logged.ofExcept (l.word.map .unit)
    else if l.mnemonic = "BYTE" then Logged.ofExcept ((ByteLiteral.encode l).map .bytes)
    else if l.mnemonic = "RESW" ∨ l.mnemonic = "RESB" then pure .gap
    else pure .nothing

end SourceLine

/-- Whether code stops before an entry: `END` stands as its mnemonic or as its operand. -/
def Entry.isEnd (e : Entry) : Bool := e.line.mnemonic = "END" || e.line.operand = "END"

def Packer.place (p : Packer) (address : Int) : Emission → Step Packer RecordFault
  | .unit code => p.add address code
  | .bytes payload => if payload = "" then .done p else p.addBytes address payload
  | .gap => p.flush
  | .nothing => .done p

namespace ObjectProgram

def pack (table : OpcodeTable) (symbols : SymbolTable) (undefinedSymbols : UndefinedSymbols)
    (packer : Packer) : List Entry → Logged Fault Packer
  | [] => pure packer
  | e :: rest =>
    if e.isEnd then pure packer
    else do
      let emitted ← (e.line.emission table symbols undefinedSymbols).mapError .diagnostic
      let packer ← ((packer.place e.address emitted).toLogged).mapError .record
      pack table symbols undefinedSymbols packer rest

/-- The header record of a layout. Without a `START` statement it has no name and starts at zero. -/
def header (l : Layout) : Except RecordFault Record :=
  match l.startEntry with
  | some e => Record.makeHeader l.program.name e.address l.program.length
  | none => Record.makeHeader "" 0 l.program.length

def ofLayout (table : OpcodeTable) (policy : Policy) (l : Layout) : Logged Fault (List Record) := do
  let first ← (Logged.ofExcept (header l)).mapError .record
  let packer ← pack table l.symbols policy.undefinedSymbols (.empty maxTextBytes) l.entries
  let packer ← (packer.flush.toLogged).mapError .record
  let last ← (Logged.ofExcept (Record.makeFinish l.program.start)).mapError .record
  Logged.note (.objectComplete packer.records.length)
  pure (first :: (packer.records.map .text ++ [last]))

end ObjectProgram

end SicAssembler
