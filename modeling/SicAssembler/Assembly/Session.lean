import SicAssembler.Assembly.File

/-!
# Sessions

A session makes runs one after another under a policy that may change, and keeps the result of the
last run if it succeeded. A run first drops the result of the run before, then loads opcodes, reads
and assembles, and keeps its own result at the end. Wherever it fails, the session stays as the run
has left it so far.
-/

namespace SicAssembler

/-- The policy in force and the result of the last run. -/
structure Session where
  policy : Policy
  result : Option Assembly
  deriving DecidableEq, Repr

inductive Request where
  | text (source : String) (opcodes : OpcodeSource) (filename : String)
  | lines (lines : List String) (opcodes : OpcodeSource) (filename : String)
  | file (path : String) (opcodes : Option String)
  | configure (policy : Policy)

namespace Session

def start (policy : Policy) : Session := ⟨policy, none⟩

/-- An action on a session gives a value or fails, and leaves a session behind either way. -/
def Action (α : Type) : Type := Session → Session × Logged Fault α

namespace Action

variable {α β : Type}

protected def bind (x : Action α) (f : α → Action β) : Action β := fun s =>
  match (x s).2.result with
  | .ok a => ((f a (x s).1).1, ⟨(x s).2.log ++ (f a (x s).1).2.log, (f a (x s).1).2.result⟩)
  | .error e => ((x s).1, ⟨(x s).2.log, .error e⟩)

instance : Monad Action where
  pure a := fun s => (s, pure a)
  bind := Action.bind

def lift (x : Logged Fault α) : Action α := fun s => (s, x)

def modify (f : Session → Session) : Action Unit := fun s => (f s, pure ())

def policy : Action Policy := fun s => (s, pure s.policy)

def clear : Action Unit := modify fun s => { s with result := none }

def keep (a : Assembly) : Action Unit := modify fun s => { s with result := some a }

def assembleLines (lines : List String) (opcodes : OpcodeSource) (filename : String) :
    Action Assembly := do
  clear
  let table ← lift ((opcodes.load Assembly.opcodesName).mapError .diagnostic)
  lift (Logged.note (.assembling filename table.size))
  let layout ← lift ((Layout.ofLines table (← policy) filename lines).mapError .diagnostic)
  let records ← lift (ObjectProgram.ofLayout table (← policy) layout)
  let assembly : Assembly := ⟨layout, records⟩
  keep assembly
  let program := assembly.program
  lift (Logged.note
    (.assembled program.name program.length program.start assembly.layout.symbols.size))
  return assembly

def assembleText (source : String) (opcodes : OpcodeSource) (filename : String) :
    Action Assembly :=
  assembleLines (Text.lines source) opcodes filename

def fileOpcodes (d : Disk) : Option String → Logged Fault OpcodeSource
  | none => pure .standard
  | some path => .ready <$> OpcodeTable.ofFile d path

def assembleFile (d : Disk) (path : String) (opcodes : Option String) : Action Assembly := do
  clear
  let source ← lift (fileOpcodes d opcodes)
  let lines ← lift ((Logged.ofExcept (d.lines path)).mapError .unreadable)
  assembleLines lines source path

end Action

open Session.Action in
/-- What a request does. A request for a run gives its result. -/
def act (d : Disk) : Request → Action (Option Assembly)
  | .text source opcodes filename => some <$> assembleText source opcodes filename
  | .lines lines opcodes filename => some <$> assembleLines lines opcodes filename
  | .file path opcodes => some <$> assembleFile d path opcodes
  | .configure policy => do
    modify fun s => { s with policy := policy }
    return none

def perform (d : Disk) (s : Session) (request : Request) : Step Session Fault :=
  match act d request s with
  | (s, ⟨log, .ok _⟩) => ⟨s, log, none⟩
  | (s, ⟨log, .error e⟩) => ⟨s, log, some e⟩

end Session

end SicAssembler
