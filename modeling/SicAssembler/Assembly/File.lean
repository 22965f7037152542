import SicAssembler.Assembly.Basic
import SicAssembler.Text.Utf8

/-!
# Assembling files

Sources and opcode tables are read from UTF-8 files, and the artifacts of a run are written to
files, one line of text each.
-/

namespace SicAssembler

/-- The lines of a file. The fault names the path in its plain form. -/
def Disk.lines (d : Disk) (path : String) : Except Unreadable (List String) :=
  let plain := Path.plain path
  match d.read plain with
  | .error e => .error ⟨plain, e.text⟩
  | .ok bytes =>
    match Text.decode bytes with
    | .error e => .error ⟨plain, e.text⟩
    | .ok cs => .ok (Text.lines (String.ofList (Text.foldNewlines cs)))

def Text.encodeLines (ls : List String) : List UInt8 := encode (unlines ls)

def Disk.writeLines (d : Disk) (path : String) (ls : List String) : Except DiskFault Disk :=
  d.write path (Text.encodeLines ls)

def OpcodeTable.ofFile (d : Disk) (path : String) : Logged Fault OpcodeTable := do
  let lines ← (Logged.ofExcept (d.lines path)).mapError .unreadable
  (OpcodeTable.load path lines).mapError .diagnostic

namespace Assembly

/-- The opcodes of a run: those of a file, or the standard ones. -/
def fileOpcodes (d : Disk) : Option String → Logged Fault OpcodeTable
  | none => pure OpcodeTable.standard
  | some path => OpcodeTable.ofFile d path

def ofFile (policy : Policy) (d : Disk) (path : String) (opcodes : Option String) :
    Logged Fault Assembly := do
  let table ← fileOpcodes d opcodes
  let lines ← (Logged.ofExcept (d.lines path)).mapError .unreadable
  ofTable policy table path lines

inductive Artifact where
  | object
  | listing
  | symbols
  deriving DecidableEq, Repr

def artifactLines (a : Assembly) : Artifact → List String
  | .object => a.objectCode
  | .listing => a.listing
  | .symbols => a.symbolTable

def artifactBytes (a : Assembly) (artifact : Artifact) : List UInt8 :=
  Text.encodeLines (a.artifactLines artifact)

/-- What is reported when an artifact was written. -/
def artifactNotice (a : Assembly) (path : String) : Artifact → Notice
  | .object => .wroteObject a.records.length path
  | .listing => .wroteListing path
  | .symbols => .wroteSymbols path

def write (a : Assembly) (d : Disk) (artifact : Artifact) (path : String) : Step Disk Fault :=
  match d.writeLines path (a.artifactLines artifact) with
  | .ok d => ⟨d, [a.artifactNotice path artifact], none⟩
  | .error e => .refused d (.disk e)

def writeAll (a : Assembly) (d : Disk) (outputs : List (Artifact × String)) : Step Disk Fault :=
  Step.each (fun d (artifact, path) => a.write d artifact path) d outputs

end Assembly

end SicAssembler
