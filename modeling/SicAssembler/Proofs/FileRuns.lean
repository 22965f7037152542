import SicAssembler.Proofs.Duplicates
import SicAssembler.Proofs.Spacing
import SicAssembler.Proofs.TextFiles

/-!
# Runs on files

A run on files that hold texts in UTF-8 has the outcome of the run on the texts. The names of the
files show only in diagnostics, where they stand in place of the names that texts from no file have.
-/

namespace SicAssembler

def Problem.renamed (f : String → String) : Problem → Problem
  | .emptySource filename => .emptySource (f filename)
  | p => p

def Location.renamed (f : String → String) (l : Location) : Location :=
  { l with filename := f l.filename }

namespace Diagnostic

/-- The diagnostic with its file named otherwise: in its place or, if it has none, in its
problem. -/
def renamed (f : String → String) (d : Diagnostic) : Diagnostic :=
  match d.location with
  | some l => { d with location := some (l.renamed f) }
  | none => { d with problem := d.problem.renamed f }

/-- Diagnostics that differ only in the name of the file. -/
structure Renamed (f : String → String) (d d' : Diagnostic) : Prop where
  eq : d' = d.renamed f
  family_eq : d'.problem.family = d.problem.family
  hint_eq : d'.hint = d.hint
  line_eq : d'.location.map Location.line = d.location.map Location.line
  column_eq : d'.location.map Location.column = d.location.map Location.column
  sourceLine_eq : d'.sourceLine = d.sourceLine

theorem renamed_renamed (f : String → String) (d : Diagnostic) : d.Renamed f (d.renamed f) := by
  obtain ⟨problem, location, sourceLine, advice⟩ := d
  cases location with
  | some l => exact ⟨rfl, rfl, rfl, rfl, rfl, rfl⟩
  | none =>
    have hfamily : (problem.renamed f).family = problem.family := by cases problem <;> rfl
    have hhint : (problem.renamed f).hint = problem.hint := by cases problem <;> rfl
    refine ⟨rfl, hfamily, ?_, rfl, rfl, rfl⟩
    simp only [renamed, hint, hhint]

end Diagnostic

namespace SourceLine

def renamed (f : String → String) (l : SourceLine) : SourceLine :=
  { l with filename := f l.filename }

variable {L : SourceLine → SourceLine → Prop} {E : Diagnostic → Diagnostic → Prop}
  {filename filename' : String}

/-- Where each line is read alike in two files, the statements go together. -/
theorem samePrograms_of_parse
    (hparse : ∀ (text : String) (n : Int),
      SameOutcome E L (parse text n filename) (parse text n filename')) (lines : List String) :
    ∀ n : Nat,
      SamePrograms L E (statementsFrom filename n lines) (statementsFrom filename' n lines) := by
  induction lines with
  | nil =>
    intro n
    exact .nil
  | cons text rest ih =>
    intro n
    have hread := hparse text n
    rw [statementsFrom, statementsFrom]
    split
    · exact ih (n + 1)
    · generalize parse text n filename = outcome at hread ⊢
      generalize parse text n filename' = outcome' at hread ⊢
      cases hread with
      | ok h => exact .next h (ih (n + 1))
      | error h => exact .error h _ _

end SourceLine

open SourceLine Diagnostic

section Names

variable (f : String → String) (filename : String)

theorem rewording_renamed :
    Rewording filename (f filename) (fun l l' => l' = l.renamed f) (Renamed f) where
  label_eq h := by rw [h, SourceLine.renamed]
  mnemonic_eq h := by rw [h, SourceLine.renamed]
  operand_eq h := by rw [h, SourceLine.renamed]
  operandFault p h := h ▸ renamed_renamed f _
  duplicate _ _ h := h ▸ renamed_renamed f _
  overflow _ := renamed_renamed f _
  emptySource := renamed_renamed f _

theorem samePrograms_renamed (lines : List String) :
    SamePrograms (fun l l' => l' = l.renamed f) (Renamed f) (statements filename lines)
      (statements (f filename) lines) := by
  apply samePrograms_of_parse
  intro text n
  exact parse_alike rfl (fun _ _ _ => rfl) fun _ => renamed_renamed f _

theorem OpcodeEntry.parse_renamed (text : String) (n : Int) :
    SameOutcome (Renamed f) Eq (parse text n filename) (parse text n (f filename)) := by
  unfold parse
  dsimp only
  split
  · split
    · exact .ok rfl
    · exact .error (renamed_renamed f _)
  · exact .error (renamed_renamed f _)

theorem OpcodeEntry.parseFrom_renamed (lines : List String) :
    ∀ n : Nat, SameOutcome (Renamed f) Eq (parseFrom filename n lines)
      (parseFrom (f filename) n lines) := by
  induction lines with
  | nil =>
    intro n
    exact .ok rfl
  | cons text rest ih =>
    intro n
    have hread := parse_renamed f filename text n
    rw [parseFrom, parseFrom]
    split
    · exact ih (n + 1)
    · generalize parse text n filename = outcome at hread ⊢
      generalize parse text n (f filename) = outcome' at hread ⊢
      cases hread with
      | ok h =>
        subst h
        exact (ih (n + 1)).map fun _ _ htail => by rw [htail]
      | error h => exact .error h

theorem OpcodeTable.load_renamed (lines : List String) :
    SameOutcome (Renamed f) Eq (load filename lines).result (load (f filename) lines).result := by
  apply SameOutcome.bind (OpcodeEntry.parseFrom_renamed f filename lines 1)
  rintro entries _ rfl
  have hentries : SameOutcome (Renamed f) Eq (ofEntries entries).result
      (ofEntries entries).result := by
    obtain ⟨after, hafter⟩ := exists_addAll entries .empty
    rw [ofEntries, hafter]
    exact .ok rfl
  apply SameOutcome.bind hentries
  rintro table _ rfl
  exact .ok rfl

theorem Assembly.ofTable_renamed (policy : Policy) (table : OpcodeTable) (lines : List String) :
    SameOutcome (Fault.Alike (Renamed f)) SameArtifacts (ofTable policy table filename lines).result
      (ofTable policy table (f filename) lines).result := by
  apply ((rewording_renamed f filename).ofTable (samePrograms_renamed f filename lines) policy
    table).imp
  rintro a b hab
  apply hab.sameArtifacts
  rintro l _ rfl
  exact ⟨rfl, rfl, rfl⟩

end Names

namespace Assembly

/-- The names that files have in diagnostics, in place of the names of texts from no file. -/
def fileName (path : String) (opcodes : Option String) (name : String) : String :=
  if name = sourceName then path
  else if name = opcodesName then opcodes.getD name
  else name

def textOpcodes : Option String → OpcodeSource
  | none => .standard
  | some contents => .text contents

theorem fileOpcodes_alike {d : Disk} {opcodes : Option (String × String)}
    (h : ∀ file ∈ opcodes, d.read (Path.plain file.1) = .ok (Text.encode file.2)) (path : String) :
    SameOutcome (Fault.Alike (Renamed (fileName path (opcodes.map Prod.fst)))) Eq
      (((textOpcodes (opcodes.map Prod.snd)).load opcodesName).mapError .diagnostic).result
      (fileOpcodes d (opcodes.map Prod.fst)).result := by
  cases opcodes with
  | none => exact .ok rfl
  | some file =>
    have hlines : d.lines file.1 = .ok (Text.lines file.2) := Disk.lines_of_read (h file rfl)
    have hload := OpcodeTable.load_renamed (fileName path (some file.1)) opcodesName
      (Text.lines file.2)
    have hname : fileName path (some file.1) opcodesName = file.1 := rfl
    rw [hname] at hload
    have hfile : fileOpcodes d (some file.1) =
        (OpcodeTable.load file.1 (Text.lines file.2)).mapError .diagnostic := by
      rw [fileOpcodes, OpcodeTable.ofFile, hlines]
      exact pure_bind _ _
    rw [Option.map_some, hfile]
    exact hload.mapError fun _ _ => .diagnostic

end Assembly

/-- A run on a file with a source in UTF-8, and on a file with opcodes if there is one, has the
outcome of the run on the texts: results with the same artifacts, or faults that differ only in the
names of the files. -/
theorem file_run_agrees_with_text_run {policy : Policy} {d : Disk} {path source : String}
    {opcodes : Option (String × String)}
    (hsource : d.read (Path.plain path) = .ok (Text.encode source))
    (hopcodes : ∀ file ∈ opcodes, d.read (Path.plain file.1) = .ok (Text.encode file.2)) :
    SameOutcome (Fault.Alike (Renamed (Assembly.fileName path (opcodes.map Prod.fst))))
      Assembly.SameArtifacts
      (Assembly.ofText policy (Assembly.textOpcodes (opcodes.map Prod.snd)) Assembly.sourceName
        source).result
      (Assembly.ofFile policy d path (opcodes.map Prod.fst)).result := by
  apply SameOutcome.bind (Assembly.fileOpcodes_alike hopcodes path)
  rintro table _ rfl
  have hlines : d.lines path = .ok (Text.lines source) := Disk.lines_of_read hsource
  rw [hlines]
  exact Assembly.ofTable_renamed (Assembly.fileName path (opcodes.map Prod.fst))
    Assembly.sourceName policy table (Text.lines source)

/-- A program with an operand that no label defines, and with line ends of all kinds. -/
def mixedSource : String := "P START 1000\rA LDX B\r\nB LDA NOPE\u2028- END P"

def mixedOpcodes : String := "LDA 00\r\nLDX 04\r"

def mixedDisk : Disk :=
  (Disk.empty.addFile "src/p.asm" (Text.encode mixedSource)).addFile "ops"
    (Text.encode mixedOpcodes)

theorem file_run_of_mixed_line_ends :
    mixedDisk.read (Path.plain "src//p.asm") = .ok (Text.encode mixedSource) ∧
    mixedDisk.read (Path.plain "./ops") = .ok (Text.encode mixedOpcodes) ∧
    (∃ a b, (Assembly.ofText {} (.text mixedOpcodes) "<input>" mixedSource).result = .ok a ∧
      (Assembly.ofFile {} mixedDisk "src//p.asm" (some "./ops")).result = .ok b ∧
      a.objectCode = ["H^ P^ 001000^ 000006", "T^ 001000^ 041003^ 000000^ ", "E^ 001000"] ∧
      a.SameArtifacts b) ∧
    (Assembly.ofText ⟨.strict, .overwrite⟩ (.text mixedOpcodes) "<input>" mixedSource).result =
      .error (.diagnostic ⟨.undefinedSymbol "NOPE" [], some ⟨"<input>", 3, 7⟩, some "B LDA NOPE",
        none⟩) ∧
    (Assembly.ofFile ⟨.strict, .overwrite⟩ mixedDisk "src//p.asm" (some "./ops")).result =
      .error (.diagnostic ⟨.undefinedSymbol "NOPE" [], some ⟨"src//p.asm", 3, 7⟩,
        some "B LDA NOPE", none⟩) := by
  have hsource : mixedDisk.read (Path.plain "src//p.asm") = .ok (Text.encode mixedSource) := by
    decide +kernel
  have hops : mixedDisk.read (Path.plain "./ops") = .ok (Text.encode mixedOpcodes) := by
    decide +kernel
  have hopcodes : ∀ file ∈ some ("./ops", mixedOpcodes),
      mixedDisk.read (Path.plain file.1) = .ok (Text.encode file.2) := by
    rintro _ ⟨⟩
    exact hops
  have hsame : ∀ policy,
      SameOutcome (Fault.Alike (Renamed (Assembly.fileName "src//p.asm" (some "./ops"))))
        Assembly.SameArtifacts
        (Assembly.ofText policy (.text mixedOpcodes) "<input>" mixedSource).result
        (Assembly.ofFile policy mixedDisk "src//p.asm" (some "./ops")).result :=
    fun _ => file_run_agrees_with_text_run hsource hopcodes
  refine ⟨hsource, hops, ?_, ?_⟩
  · have hrun : ∃ a, (Assembly.ofText {} (.text mixedOpcodes) "<input>" mixedSource).result =
        .ok a ∧ decide (a.objectCode = ["H^ P^ 001000^ 000006", "T^ 001000^ 041003^ 000000^ ",
          "E^ 001000"]) = true := Logged.exists_of_any (by decide +kernel)
    obtain ⟨a, ha, hcode⟩ := hrun
    have houtcome := hsame {}
    rw [ha] at houtcome
    generalize (Assembly.ofFile {} mixedDisk "src//p.asm" (some "./ops")).result = outcome
      at houtcome ⊢
    cases houtcome with
    | ok hab => exact ⟨a, _, ha, rfl, of_decide_eq_true hcode, hab⟩
  · have hrun : (Assembly.ofText ⟨.strict, .overwrite⟩ (.text mixedOpcodes) "<input>"
        mixedSource).result = .error (.diagnostic ⟨.undefinedSymbol "NOPE" [],
          some ⟨"<input>", 3, 7⟩, some "B LDA NOPE", none⟩) := by decide +kernel
    refine ⟨hrun, ?_⟩
    have houtcome := hsame ⟨.strict, .overwrite⟩
    rw [hrun] at houtcome
    generalize (Assembly.ofFile ⟨.strict, .overwrite⟩ mixedDisk "src//p.asm"
      (some "./ops")).result = outcome at houtcome ⊢
    cases houtcome with
    | error h =>
      cases h with
      | diagnostic h =>
        rw [h.eq]
        rfl

end SicAssembler
