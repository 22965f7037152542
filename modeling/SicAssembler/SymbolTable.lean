import SicAssembler.Dictionary
import SicAssembler.Policy
import SicAssembler.SourceLine

/-!
# Symbol tables

The labels of a program with their addresses, in order of first definition.
-/

namespace SicAssembler

/-- Addresses by label. -/
abbrev SymbolTable := Dictionary Int

namespace SymbolTable

def duplicate (label : String) (address : Int) (line : Option SourceLine) : Diagnostic :=
  ⟨.duplicateSymbol label address, line.map SourceLine.location, line.map SourceLine.text, none⟩

/-- Enters a label at an address. A label that has an address is refused, or takes the new one with
a warning. -/
def define (duplicates : DuplicateLabels) (table : SymbolTable) (label : String) (address : Int)
    (line : Option SourceLine) : Step SymbolTable Diagnostic :=
  match table.get? label, duplicates with
  | some before, .reject => .refused table (duplicate label before line)
  | some before, .overwrite =>
    ⟨table.insert label address,
      [.labelRedefined label before address, .symbolDefined label address], none⟩
  | none, _ => ⟨table.insert label address, [.symbolDefined label address], none⟩

def defineAll (duplicates : DuplicateLabels) (table : SymbolTable) :
    List (String × Int) → Step SymbolTable Diagnostic
  | [] => .done table
  | (label, address) :: rest =>
    (table.define duplicates label address none).andThen fun table =>
      defineAll duplicates table rest

def render (table : SymbolTable) : List String :=
  table.entries.map fun (label, address) => s!"{label}\t{Text.hexField 4 address}"

end SymbolTable

end SicAssembler
