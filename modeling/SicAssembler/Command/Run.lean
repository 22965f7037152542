import SicAssembler.Command.Host
import SicAssembler.Command.Options

/-!
# The command

Assembles a file, writes its artifacts, and shows them on request. Usage faults and texts about the
command come before any work. Control sequences in what is shown are left out; the log and the
artifacts keep theirs.
-/

namespace SicAssembler.Command

structure Outcome where
  exitCode : Nat
  stdout : String
  stderr : String
  disk : Disk
  deriving DecidableEq, Repr

def display (lines : List String) : String := Text.withoutSequences (Text.unlines lines)

def showSection (title : String) (lines : List String) : List String :=
  title :: String.ofList (List.replicate title.length '-') :: (lines ++ [""])

def showAssembly (a : Assembly) : List String :=
  showSection "Intermediate Code" a.listing ++ showSection "Symbol Table" a.symbolTable ++
    showSection "Object Code" a.objectCode

def opening (a : Arguments) : List String :=
  if a.verbose then [s!"Assembling {a.input}..."] else []

def closing (a : Arguments) (assembly : Assembly) : List String :=
  let p := assembly.program
  let shown := if a.print then showAssembly assembly else []
  let count := assembly.layout.symbols.size
  let account :=
    if a.verbose then
      [s!"Assembly complete: {p.length} bytes at {Text.hexField 4 p.start}, {count} symbols",
        s!"Wrote {a.objectPath}"]
    else []
  shown ++ account

def outputs (a : Arguments) : List (Assembly.Artifact × String) :=
  (.object, a.objectPath) ::
    (a.listing.toList.map (.listing, ·) ++ a.symbols.toList.map (.symbols, ·))

/-- Assembles the input under the policy of the environment and the arguments. -/
def assemble (env : Environment) (d : Disk) (a : Arguments) : Logged Fault Assembly := do
  let policy ← Policy.ofEnvironment env
  Assembly.ofFile (a.policy policy) d a.input a.optab

def logText (a : Arguments) (log : List Notice) : String :=
  Text.unlines (Notice.report a.verbose log)

def failed (a : Arguments) (d : Disk) (lines : List String) (log : List Notice) (f : Failure) :
    Outcome :=
  ⟨f.kind.exitCode, display lines, logText a log ++ f.report (some "Assembly") a.verbose, d⟩

def execute (host : Host) (d : Disk) (a : Arguments) : Outcome :=
  match host.muted? (opening a) with
  | some f =>
    let policy : Logged Fault Policy := Policy.ofEnvironment host.environment
    failed a d (host.shown (opening a)) policy.log f
  | none =>
    let run := assemble host.environment d a
    match run.result with
    | .error f => failed a d (opening a) run.log (.fault f)
    | .ok assembly =>
      let written := host.saveAll assembly d (outputs a)
      let log := run.log ++ written.log
      match written.refusal with
      | some f => failed a written.state (opening a) log f
      | none =>
        -- All is written by now, and stays so if it cannot be shown.
        let lines := opening a ++ closing a assembly
        match host.muted? lines with
        | some f => failed a written.state (host.shown lines) log f
        | none => ⟨0, display lines, logText a log, written.state⟩

/-- Runs the command on a command line, as a reader takes it. -/
def runWith (reader : Reader) (host : Host) (d : Disk) (args : List String) : Outcome :=
  match reader d args with
  | .finished exitCode stdout stderr => ⟨exitCode, stdout, stderr, d⟩
  | .ready a => execute host d a

/-- A run with the program's own options, in which the system refuses nothing. -/
def run (env : Environment) (d : Disk) (args : List String) : Outcome :=
  runWith Arguments.reader { environment := env } d args

end SicAssembler.Command
