import SicAssembler.Assembly.File
import SicAssembler.Command.Failure
import SicAssembler.Policy

/-!
# The system around a run

What a run asks of the system may be refused: a file may not be opened for writing, a device may be
full before a file is written, and standard output may be closed. Nothing of this can be told
beforehand, so the answers of the system are given with a run.
-/

namespace SicAssembler

/-- How a write ends: whole, with a file that was not opened because this is not permitted or for
another reason, or broken off after some bytes. -/
inductive Ending where
  | whole
  | denied
  | unopened (reason : String)
  | brokenOff (after : Nat) (reason : String)
  deriving DecidableEq, Repr

/-- What a run finds around it: the environment, how the write of each artifact ends, and after how
many lines standard output fails and why, if it does. -/
structure Host where
  environment : Environment := {}
  ending : Assembly.Artifact → Ending := fun _ => .whole
  stdout : Option (Nat × String) := none

namespace Host

/-- Writes an artifact as far as the system lets it. A file that is opened loses what it held. -/
def save (host : Host) (assembly : Assembly) (d : Disk) (artifact : Assembly.Artifact)
    (path : String) : Step Disk Failure :=
  match host.ending artifact with
  | .whole => (assembly.write d artifact path).mapRefusal .fault
  | .denied => .refused d (.permissionDenied s!"[Errno 13] Permission denied: {Text.quoted path}")
  | .unopened reason => .refused d (.unexpected reason)
  | .brokenOff after reason =>
    match d.write path ((assembly.artifactBytes artifact).take after) with
    | .ok d => .refused d (.unexpected reason)
    | .error e => .refused d (.fault (.disk e))

def saveAll (host : Host) (assembly : Assembly) (d : Disk)
    (outputs : List (Assembly.Artifact × String)) : Step Disk Failure :=
  Step.each (fun d (artifact, path) => host.save assembly d artifact path) d outputs

def shown (host : Host) (lines : List String) : List String :=
  match host.stdout with
  | some (limit, _) => lines.take limit
  | none => lines

def muted? (host : Host) (lines : List String) : Option Failure :=
  match host.stdout with
  | some (limit, reason) => if limit < lines.length then some (.unexpected reason) else none
  | none => none

end Host

end SicAssembler
