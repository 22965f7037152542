import SicAssembler.Fault
import SicAssembler.Text.ControlSequence

/-!
# Reports of failures

What the command says when it cannot do its work, and the code it exits with: one for a program
that does not assemble, two for arguments and files that cannot be used, three for what was not
foreseen.
-/

namespace SicAssembler

inductive Failure where
  | fault (f : Fault)
  | general (text : String)
  | badParameter (text : String)
  | fileMissing (text : String)
  | permissionDenied (text : String)
  | unexpected (text : String)
  deriving DecidableEq, Repr

inductive FailureKind where
  | assembly
  | usage
  | internal
  deriving DecidableEq, Repr

def FailureKind.exitCode : FailureKind → Nat
  | assembly => 1
  | usage => 2
  | internal => 3

namespace Failure

def text : Failure → String
  | fault f => f.text
  | general text | badParameter text | fileMissing text | permissionDenied text
  | unexpected text => text

/-- How a failure is reported. Of the outputs that cannot be written only a missing directory
counts as the user's. -/
def kind : Failure → FailureKind
  | fault (.diagnostic _) | general _ => .assembly
  | fault (.unreadable _) | fault (.disk ⟨.missing, _⟩) => .usage
  | badParameter _ | fileMissing _ | permissionDenied _ => .usage
  | fault (.disk _) | fault (.record _) | unexpected _ => .internal

/-- What is said of a failure. The activity heads what went wrong with a program. -/
def message (activity : Option String) (f : Failure) : String :=
  match f.kind with
  | .assembly =>
    match activity with
    | some name => if name = "" then f.text else s!"{name} failed:\n{f.text}"
    | none => f.text
  | .usage => s!"Error: {f.text}"
  | .internal => s!"Internal error: {f.text}"

def trace (verbose : Bool) (f : Failure) : String :=
  if verbose ∧ f.kind = .internal then "Traceback (most recent call last):\n" else ""

def report (activity : Option String) (verbose : Bool) (f : Failure) : String :=
  Text.withoutSequences (f.message activity) ++ "\n" ++ f.trace verbose

end Failure

end SicAssembler
