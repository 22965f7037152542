import SicAssembler.Logged
import SicAssembler.Text.Blank

/-!
# Policies

What the assembler does about an operand that no label defines and about a label that is defined
again. The environment may choose.
-/

namespace SicAssembler

inductive UndefinedSymbols where
  | lenient
  | strict
  deriving DecidableEq, Repr

def UndefinedSymbols.name : UndefinedSymbols → String
  | lenient => "lenient"
  | strict => "strict"

inductive DuplicateLabels where
  | overwrite
  | reject
  deriving DecidableEq, Repr

def DuplicateLabels.name : DuplicateLabels → String
  | overwrite => "overwrite"
  | reject => "error"

def DuplicateLabels.ofName? : String → Option DuplicateLabels
  | "overwrite" => some .overwrite
  | "error" => some .reject
  | _ => none

structure Policy where
  undefinedSymbols : UndefinedSymbols := .lenient
  duplicateLabels : DuplicateLabels := .overwrite
  deriving DecidableEq, Repr

structure Environment where
  strictSymbols : Option String := none
  duplicateLabels : Option String := none
  deriving DecidableEq, Repr

namespace Policy

def isStrict (p : Policy) : Bool := p.undefinedSymbols == .strict

/-- A setting without the blanks around it, in small letters. -/
def normalized (setting : String) : String := Text.lower (Text.trim setting)

def undefinedSetting (setting : Option String) : UndefinedSymbols :=
  match setting with
  | some s => if ["1", "true", "yes", "on"].contains (normalized s) then .strict else .lenient
  | none => .lenient

/-- What a setting says about duplicate labels. A setting that says nothing is reported. -/
def duplicateSetting {ε : Type} (setting : Option String) : Logged ε DuplicateLabels :=
  match setting with
  | some s =>
    if s = "" then pure .overwrite
    else match DuplicateLabels.ofName? (normalized s) with
      | some choice => pure choice
      | none => ⟨[.settingIgnored s], .ok .overwrite⟩
  | none => pure .overwrite

def ofEnvironment {ε : Type} (env : Environment) : Logged ε Policy := do
  let duplicates ← duplicateSetting env.duplicateLabels
  pure ⟨undefinedSetting env.strictSymbols, duplicates⟩

end Policy

end SicAssembler
