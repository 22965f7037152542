import SicAssembler.ObjectProgram

/-!
# Assemblies

A program is laid out as a whole, and then its object program is made from the layout. The two
together are the result of a run.
-/

namespace SicAssembler

/-- The result of a run. -/
structure Assembly where
  layout : Layout
  records : List Record
  deriving DecidableEq, Repr

namespace Assembly

def program (a : Assembly) : Program := a.layout.program

def listing (a : Assembly) : List String := a.layout.listing

def symbolTable (a : Assembly) : List String := a.layout.symbols.render

def objectCode (a : Assembly) : List String := a.records.map Record.render

/-- The name that opcodes have in diagnostics when they come from no file. -/
def opcodesName : String := "<optab>"

/-- The name that a source has in diagnostics when it comes from no file. -/
def sourceName : String := "<input>"

def ofTable (policy : Policy) (table : OpcodeTable) (filename : String) (lines : List String) :
    Logged Fault Assembly := do
  Logged.note (.assembling filename table.size)
  let layout ← (Layout.ofLines table policy filename lines).mapError .diagnostic
  let records ← ObjectProgram.ofLayout table policy layout
  let program := layout.program
  Logged.note (.assembled program.name program.length program.start layout.symbols.size)
  pure ⟨layout, records⟩

def ofLines (policy : Policy) (opcodes : OpcodeSource) (filename : String) (lines : List String) :
    Logged Fault Assembly := do
  let table ← (opcodes.load opcodesName).mapError .diagnostic
  ofTable policy table filename lines

def ofText (policy : Policy) (opcodes : OpcodeSource) (filename source : String) :
    Logged Fault Assembly :=
  ofLines policy opcodes filename (Text.lines source)

end Assembly

end SicAssembler
