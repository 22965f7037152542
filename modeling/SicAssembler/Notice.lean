import SicAssembler.Diagnostic
import SicAssembler.Text.Quoted

/-!
# Notices

What the assembler reports while it works: details of the run, the artifacts it made, and
warnings about what it accepted.
-/

namespace SicAssembler

inductive Level where
  | debug
  | info
  | warning
  deriving DecidableEq, Repr

def Level.name : Level → String
  | debug => "DEBUG"
  | info => "INFO"
  | warning => "WARNING"

inductive Notice where
  | opcodesLoaded (count : Nat) (filename : String)
  | assembling (filename : String) (opcodes : Nat)
  | programStarts (name : String) (start : Int)
  | noStart
  | symbolDefined (label : String) (address : Int)
  | layoutComplete (lines symbols : Nat) (length : Int)
  | textRecord (start : Int) (length : Nat)
  | objectComplete (records : Nat)
  | assembled (name : String) (length start : Int) (symbols : Nat)
  | wroteListing (path : String)
  | wroteSymbols (path : String)
  | wroteObject (records : Nat) (path : String)
  | settingIgnored (value : String)
  | opcodeRedefined (mnemonic before after : String)
  | labelRedefined (label : String) (before after : Int)
  | unknownMnemonic (location : Location) (mnemonic : String)
  | noEnd (filename : String)
  | undefinedOperand (location : Location) (operand : String)
  deriving DecidableEq, Repr

namespace Notice

def level : Notice → Level
  | opcodesLoaded _ _ | assembling _ _ | programStarts _ _ | noStart | symbolDefined _ _ => .debug
  | layoutComplete _ _ _ | textRecord _ _ | objectComplete _ => .debug
  | assembled _ _ _ _ | wroteListing _ | wroteSymbols _ | wroteObject _ _ => .info
  | settingIgnored _ | opcodeRedefined _ _ _ | labelRedefined _ _ _ => .warning
  | unknownMnemonic _ _ | noEnd _ | undefinedOperand _ _ => .warning

def message : Notice → String
  | opcodesLoaded count filename => s!"Loaded {count} opcodes from {filename}"
  | assembling filename opcodes => s!"Assembling {filename} with {opcodes} opcodes"
  | programStarts name start => s!"Program '{name}' starts at {Text.hexField 4 start}"
  | noStart => "No START directive, assembling from address 0000"
  | symbolDefined label address => s!"Symbol {label} = {Text.hexField 4 address}"
  | layoutComplete lines symbols length =>
    s!"Pass one complete: {lines} lines, {symbols} symbols, length {Text.hexField 6 length}"
  | textRecord start length => s!"Text record {Text.hexField 6 start}: {length} bytes"
  | objectComplete records => s!"Pass two complete: {records} text records"
  | assembled name length start symbols =>
    s!"Assembled '{name}': {length} bytes at {Text.hexField 4 start}, {symbols} symbols"
  | wroteListing path => s!"Wrote listing to {path}"
  | wroteSymbols path => s!"Wrote symbols to {path}"
  | wroteObject records path => s!"Wrote {records} records to {path}"
  | settingIgnored value =>
    s!"Ignoring SICASM_DUPLICATE_LABELS={Text.quoted value} (expected 'overwrite' or 'error')"
  | opcodeRedefined mnemonic before after =>
    s!"Opcode '{mnemonic}' redefined: {before} -> {after}"
  | labelRedefined label before after =>
    s!"Label '{label}' redefined: {Text.hexField 4 before} -> {Text.hexField 4 after}"
  | unknownMnemonic location mnemonic =>
    s!"{location.text}: unknown mnemonic '{mnemonic}' occupies no space"
  | noEnd filename => s!"{filename}: no END directive, program ends at end of input"
  | undefinedOperand location operand =>
    s!"{location.text}: undefined symbol '{operand}', using 0000"

def line (n : Notice) : String := s!"{n.level.name}: {n.message}"

/-- Whether a notice is shown: warnings always, the rest only on request. -/
def isShown (detailed : Bool) (n : Notice) : Bool := detailed || n.level == .warning

def report (detailed : Bool) (log : List Notice) : List String :=
  (log.filter (isShown detailed)).map line

end Notice

end SicAssembler
