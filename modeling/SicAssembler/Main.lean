import SicAssembler.Command.Run

/-!
# The program

Takes from the disk what the arguments mention, writes what is to be written, and reports the run
with the answers that the system gave.
-/

namespace SicAssembler

def takeNode (d : Disk) (p : Place) (isDirectory : Bool) : IO Disk := do
  if isDirectory then
    return d.put p .directory
  try
    let bytes ← IO.FS.readBinFile p.text
    return d.put p (.file bytes.toList)
  catch _ =>
    return { d.put p (.file []) with unreadable := p :: d.unreadable }

/-- Takes in what a component leads to from a place, and gives the place. -/
def takeStep (d : Disk) (p : Place) (name : String) : IO (Disk × Place) := do
  let q := p.child name
  try
    let real ← IO.FS.realPath q.text
    let r : Place := ⟨Path.names real.toString⟩
    let d := if r = q then d else { d with links := (q, r) :: d.links }
    return (← takeNode d r (← real.isDir), r)
  catch _ =>
    return (d, q)

def takeIn (d : Disk) (path : String) : IO Disk := do
  let walked ← (Path.components path).foldlM (fun (d, p) name => takeStep d p name)
    (d, d.origin path)
  return walked.1

/-- Writes outputs in order until one fails, and tells how the writes ended. -/
def writeOut (d : Disk) (assembly : Assembly) :
    List (Assembly.Artifact × String) → IO (Assembly.Artifact → Ending)
  | [] => return fun _ => .whole
  | (artifact, path) :: rest => do
    match d.writable path with
    | .error _ => return fun _ => .whole
    | .ok _ =>
      try
        IO.FS.writeBinFile path (ByteArray.mk (assembly.artifactBytes artifact).toArray)
        writeOut d assembly rest
      catch e => return fun other => if other = artifact then .unopened (toString e) else .whole

def environment : IO Environment := do
  let strictSymbols ← IO.getEnv "SICASM_STRICT_SYMBOLS"
  let duplicateLabels ← IO.getEnv "SICASM_DUPLICATE_LABELS"
  return ⟨strictSymbols, duplicateLabels⟩

def report (exitCode : Nat) (stdout stderr : String) : IO UInt32 := do
  (← IO.getStdout).putStr stdout
  (← IO.getStderr).putStr stderr
  return UInt32.ofNat exitCode

end SicAssembler

open SicAssembler in
def main (args : List String) : IO UInt32 := do
  let env ← environment
  let working : Place := ⟨Path.names (← IO.currentDir).toString⟩
  let mentioned := ((RawArguments.read args).toOption.map RawArguments.mentioned).getD []
  let before ← mentioned.foldlM takeIn { working := working, nodes := [(working, .directory)] }
  match Arguments.reader before args with
  | .finished exitCode stdout stderr => report exitCode stdout stderr
  | .ready a =>
    let ending ← match (Command.assemble env before a).result with
      | .ok assembly => writeOut before assembly (Command.outputs a)
      | .error _ => pure fun _ => .whole
    let outcome := Command.execute { environment := env, ending := ending } before a
    report outcome.exitCode outcome.stdout outcome.stderr
