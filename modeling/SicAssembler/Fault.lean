import SicAssembler.Diagnostic
import SicAssembler.Disk.Basic
import SicAssembler.Record

/-!
# Faults

Why a run gives no result: a problem in its input, a record that cannot be made, an input that
cannot be read, or an output that cannot be written.
-/

namespace SicAssembler

structure Unreadable where
  path : String
  reason : String
  deriving DecidableEq, Repr

def Unreadable.text (u : Unreadable) : String := s!"cannot read '{u.path}': {u.reason}"

/-- Why a run gives no result. -/
inductive Fault where
  | diagnostic (d : Diagnostic)
  | record (f : RecordFault)
  | unreadable (u : Unreadable)
  | disk (f : DiskFault)
  deriving DecidableEq, Repr

def Fault.text : Fault → String
  | diagnostic d => d.text
  | record f => f.text
  | unreadable u => u.text
  | disk f => f.text

end SicAssembler
