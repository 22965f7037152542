import SicAssembler.Proofs.Duplicates

/-!
# Strict policies only reject

A policy allows operands that no label defines, and labels that are defined again, with a warning,
or it forbids them. To forbid something does not change a result: a run without such a warning stays
as it is, and a run with one fails with a diagnostic of that family. A label that is defined again
where that is forbidden is reported at the first line that does so.
-/

namespace SicAssembler

universe u

/-- What a policy allows with a warning or forbids. -/
inductive Allowance where
  | undefinedOperands
  | redefinedLabels
  deriving DecidableEq, Repr

def Allowance.family : Allowance → Family
  | undefinedOperands => .undefinedSymbol
  | redefinedLabels => .duplicateSymbol

def Notice.allowance? : Notice → Option Allowance
  | .undefinedOperand _ _ => some .undefinedOperands
  | .labelRedefined _ _ _ => some .redefinedLabels
  | _ => none

namespace Policy

def Allows (p : Policy) : Allowance → Prop
  | .undefinedOperands => p.undefinedSymbols = .lenient
  | .redefinedLabels => p.duplicateLabels = .overwrite

/-- The policy that forbids something and otherwise stays as it is. -/
def forbid (p : Policy) : Allowance → Policy
  | .undefinedOperands => { p with undefinedSymbols := .strict }
  | .redefinedLabels => { p with duplicateLabels := .reject }

end Policy

/-- A diagnostic about something that is forbidden. -/
def Diagnostic.Forbids (k : Allowance) (d : Diagnostic) : Prop := d.problem.family = k.family

def Fault.Forbids (k : Allowance) (f : Fault) : Prop := ∃ d, f = .diagnostic d ∧ d.Forbids k

namespace Logged

variable {ε δ : Type} {α β : Type u} {k : Allowance} {Q : ε → Prop} {x y : Logged ε α}

/-- A computation that does not warn of something. -/
def Quiet (k : Allowance) (x : Logged ε α) : Prop := ∀ n ∈ x.log, n.allowance? ≠ some k

theorem quiet_of_log_eq_nil (h : x.log = []) : Quiet k x := by
  rw [Quiet, h]
  intro n hn
  cases hn

theorem quiet_of_log_eq_singleton {n : Notice} (h : x.log = [n]) (hn : n.allowance? ≠ some k) :
    Quiet k x := by
  rw [Quiet, h]
  exact List.forall_mem_singleton.mpr hn

theorem quiet_note {n : Notice} (h : n.allowance? = none) : Quiet k (note n : Logged ε PUnit) := by
  apply quiet_of_log_eq_singleton rfl
  rw [h]
  exact (Option.some_ne_none k).symm

theorem quiet_noteIf {n : Notice} (h : n.allowance? = none) (c : Bool) :
    Quiet k (noteIf c n : Logged ε PUnit) := by
  cases c with
  | true => exact quiet_note h
  | false => exact quiet_of_log_eq_nil rfl

theorem Quiet.bind {f : α → Logged ε β} (hx : Quiet k x) (hf : ∀ a, Quiet k (f a)) :
    Quiet k (x >>= f) := by
  cases h : x.result with
  | error e =>
    rw [bind_of_error h]
    exact hx
  | ok a =>
    rw [bind_of_ok h]
    exact List.forall_mem_append.mpr ⟨hx, hf a⟩

/-- How a computation that forbids something compares to one that allows it: without a warning it is
the same, and with one it fails. -/
inductive Stricter (k : Allowance) (Q : ε → Prop) (x y : Logged ε α) : Prop where
  | same (hquiet : Quiet k x) (heq : y = x)
  | fails {n : Notice} {e : ε} (hn : n ∈ x.log) (hwarns : n.allowance? = some k)
      (he : y.result = .error e) (hQ : Q e)

namespace Stricter

theorem refl (h : Quiet k x) : Stricter k Q x x := .same h rfl

theorem bind {f g : α → Logged ε β} (h : Stricter k Q x y) (hf : ∀ a, Stricter k Q (f a) (g a)) :
    Stricter k Q (x >>= f) (y >>= g) := by
  cases h with
  | fails hn hwarns he hQ =>
    rw [bind_of_error he]
    refine .fails ?_ hwarns rfl hQ
    cases hx : x.result with
    | error e =>
      rw [bind_of_error hx]
      exact hn
    | ok a =>
      rw [bind_of_ok hx]
      exact List.mem_append_left _ hn
  | same hquiet heq =>
    subst heq
    cases hy : y.result with
    | error e =>
      rw [bind_of_error hy, bind_of_error hy]
      exact .refl hquiet
    | ok a =>
      rw [bind_of_ok hy, bind_of_ok hy]
      cases hf a with
      | same hquiet' heq =>
        rw [heq]
        exact .refl (List.forall_mem_append.mpr ⟨hquiet, hquiet'⟩)
      | fails hn hwarns he hQ => exact .fails (List.mem_append_right _ hn) hwarns he hQ

theorem mapError {R : δ → Prop} {f : ε → δ} (h : Stricter k Q x y) (hf : ∀ e, Q e → R (f e)) :
    Stricter k R (x.mapError f) (y.mapError f) := by
  cases h with
  | same hquiet heq =>
    subst heq
    exact .refl hquiet
  | fails hn hwarns he hQ =>
    exact .fails hn hwarns (result_mapError_eq_error.mpr ⟨_, he, rfl⟩) (hf _ hQ)

theorem result_eq_ok (h : Stricter k Q x y) {a : α} (hy : y.result = .ok a) : x.result = .ok a := by
  cases h with
  | same hquiet heq => rwa [← heq]
  | fails hn hwarns he hQ =>
    rw [hy] at he
    cases he

theorem eq_of_quiet (h : Stricter k Q x y) (hquiet : Quiet k x) : y = x := by
  cases h with
  | same _ heq => exact heq
  | fails hn hwarns he hQ => exact absurd hwarns (hquiet _ hn)

theorem fails_of_mem (h : Stricter k Q x y) {n : Notice} (hn : n ∈ x.log)
    (hwarns : n.allowance? = some k) : ∃ e, y.result = .error e ∧ Q e := by
  cases h with
  | same hquiet _ => exact absurd hwarns (hquiet n hn)
  | fails _ _ he hQ => exact ⟨_, he, hQ⟩

end Stricter

end Logged

open Logged

variable {table : OpcodeTable} {policy : Policy} {k : Allowance} {filename : String}

namespace Layout

theorem define_stricter (h : policy.Allows k) (symbols : SymbolTable) (label : String)
    (address : Int) (line : Option SourceLine) :
    Stricter k (Diagnostic.Forbids k)
      (symbols.define policy.duplicateLabels label address line).toLogged
      (symbols.define (policy.forbid k).duplicateLabels label address line).toLogged := by
  cases k with
  | undefinedOperands =>
    apply Stricter.refl
    unfold SymbolTable.define
    split
    · exact quiet_of_log_eq_nil rfl
    · simp [Quiet, Step.toLogged, Notice.allowance?]
    · exact quiet_of_log_eq_singleton rfl (by simp [Notice.allowance?])
  | redefinedLabels =>
    have hoverwrite : policy.duplicateLabels = .overwrite := h
    have hreject : (policy.forbid .redefinedLabels).duplicateLabels = .reject := rfl
    rw [hoverwrite, hreject]
    unfold SymbolTable.define
    cases symbols.get? label with
    | some before => exact .fails List.mem_cons_self rfl rfl rfl
    | none => exact .refl (quiet_of_log_eq_singleton rfl (by simp [Notice.allowance?]))

theorem enterLabel_stricter (h : policy.Allows k) (symbols : SymbolTable) (address : Int)
    (line : SourceLine) :
    Stricter k (Diagnostic.Forbids k) (enterLabel policy.duplicateLabels symbols address line)
      (enterLabel (policy.forbid k).duplicateLabels symbols address line) := by
  unfold enterLabel
  split
  · exact define_stricter h symbols line.label address (some line)
  · exact .refl (quiet_of_log_eq_nil rfl)

theorem passOver_quiet (counter : LocationCounter) (line : SourceLine) :
    Quiet k (passOver table counter line) := by
  apply Quiet.bind (quiet_of_log_eq_nil rfl)
  intro size
  apply (quiet_noteIf rfl _).bind
  intro _
  apply quiet_of_log_eq_nil
  unfold LocationCounter.advance
  dsimp only
  split
  · rfl
  · rfl

theorem scan_stricter (h : policy.Allows k) (statements : List (Except Diagnostic SourceLine)) :
    ∀ (counter : LocationCounter) (symbols : SymbolTable),
      Stricter k (Diagnostic.Forbids k)
        (scan table policy.duplicateLabels filename counter symbols statements)
        (scan table (policy.forbid k).duplicateLabels filename counter symbols statements) := by
  induction statements with
  | nil =>
    intro counter symbols
    apply Stricter.refl
    apply (quiet_note rfl).bind
    intro _
    exact quiet_of_log_eq_nil rfl
  | cons statement rest ih =>
    intro counter symbols
    cases statement with
    | error d => exact .refl (quiet_of_log_eq_nil rfl)
    | ok line =>
      rw [scan, scan]
      split
      · exact .refl (quiet_of_log_eq_nil rfl)
      · apply (enterLabel_stricter h symbols counter.value line).bind
        intro entered
        apply (Stricter.refl (passOver_quiet counter line)).bind
        intro after
        apply (ih after entered).bind
        intro scanned
        exact .refl (quiet_of_log_eq_nil rfl)

theorem body_stricter (h : policy.Allows k) (name : String) (startEntry : Option Entry)
    (start : Int) (statements : List (Except Diagnostic SourceLine)) :
    Stricter k (Diagnostic.Forbids k)
      (body table policy.duplicateLabels filename name startEntry start statements)
      (body table (policy.forbid k).duplicateLabels filename name startEntry start
        statements) := by
  apply (scan_stricter h statements _ _).bind
  intro scanned
  apply Stricter.refl
  apply (quiet_note rfl).bind
  intro _
  exact quiet_of_log_eq_nil rfl

theorem ofLines_stricter (h : policy.Allows k) (lines : List String) :
    Stricter k (Diagnostic.Forbids k) (ofLines table policy filename lines)
      (ofLines table (policy.forbid k) filename lines) := by
  unfold ofLines
  cases SourceLine.statements filename lines with
  | nil => exact .refl (quiet_of_log_eq_nil rfl)
  | cons statement rest =>
    cases statement with
    | error d => exact .refl (quiet_of_log_eq_nil rfl)
    | ok first =>
      rw [ofStatements, ofStatements]
      split
      · apply (Stricter.refl (quiet_of_log_eq_nil rfl)).bind
        intro start
        apply (Stricter.refl (quiet_note rfl)).bind
        intro _
        exact body_stricter h _ _ _ _
      · apply (Stricter.refl (quiet_note rfl)).bind
        intro _
        exact body_stricter h _ _ _ _

end Layout

namespace SourceLine

theorem operandAddress_stricter (h : policy.Allows k) (symbols : SymbolTable) (l : SourceLine) :
    Stricter k (Diagnostic.Forbids k) (l.operandAddress symbols policy.undefinedSymbols)
      (l.operandAddress symbols (policy.forbid k).undefinedSymbols) := by
  cases k with
  | redefinedLabels =>
    apply Stricter.refl
    unfold operandAddress
    split
    · exact quiet_of_log_eq_nil rfl
    · split
      · exact quiet_of_log_eq_nil rfl
      · exact quiet_of_log_eq_singleton rfl (by simp [Notice.allowance?])
      · split
        · exact quiet_of_log_eq_nil rfl
        · exact quiet_of_log_eq_nil rfl
  | undefinedOperands =>
    have hlenient : policy.undefinedSymbols = .lenient := h
    have hstrict : (policy.forbid .undefinedOperands).undefinedSymbols = .strict := rfl
    rw [hlenient, hstrict]
    unfold operandAddress
    split
    · exact .refl (quiet_of_log_eq_nil rfl)
    · cases symbols.get? l.operand with
      | none => exact .fails List.mem_cons_self rfl rfl rfl
      | some address =>
        dsimp only
        split
        · exact .refl (quiet_of_log_eq_nil rfl)
        · exact .refl (quiet_of_log_eq_nil rfl)

theorem emission_stricter (h : policy.Allows k) (symbols : SymbolTable) (l : SourceLine) :
    Stricter k (Diagnostic.Forbids k) (l.emission table symbols policy.undefinedSymbols)
      (l.emission table symbols (policy.forbid k).undefinedSymbols) := by
  unfold emission
  cases table.get? l.mnemonic with
  | some code =>
    apply (operandAddress_stricter h symbols l).bind
    intro address
    exact .refl (quiet_of_log_eq_nil rfl)
  | none =>
    -- Without an operand that names a label the policy does not matter.
    apply Stricter.refl
    apply quiet_of_log_eq_nil
    dsimp only
    split
    · rfl
    · split
      · rfl
      · split
        · rfl
        · rfl

end SourceLine

namespace Packer

/-- A packer reports only the records that it makes. -/
def OnlyRecords (x : Step Packer RecordFault) : Prop :=
  ∀ n ∈ x.log, ∃ start length, n = .textRecord start length

theorem onlyRecords_done (p : Packer) : OnlyRecords (.done p) := by
  intro n hn
  cases hn

theorem OnlyRecords.andThen {x : Step Packer RecordFault} {f : Packer → Step Packer RecordFault}
    (hx : OnlyRecords x) (hf : ∀ p, OnlyRecords (f p)) : OnlyRecords (x.andThen f) := by
  unfold Step.andThen
  split
  · exact List.forall_mem_append.mpr ⟨hx, hf x.state⟩
  · exact hx

theorem flush_onlyRecords (p : Packer) : OnlyRecords p.flush := by
  unfold flush
  split
  · exact onlyRecords_done p
  · split
    · exact List.forall_mem_singleton.mpr ⟨_, _, rfl⟩
    · intro n hn
      cases hn

theorem add_onlyRecords (p : Packer) (address : Int) (unit : String) :
    OnlyRecords (p.add address unit) := by
  apply OnlyRecords.andThen
  · unfold makeRoom
    split
    · exact flush_onlyRecords p
    · exact onlyRecords_done p
  · intro q
    unfold closeFull
    split
    · exact flush_onlyRecords _
    · exact onlyRecords_done _

theorem addChunks_onlyRecords (units : List String) :
    ∀ (p : Packer) (address : Int), OnlyRecords (p.addChunks address units) := by
  induction units with
  | nil =>
    intro p address
    exact onlyRecords_done p
  | cons unit units ih =>
    intro p address
    exact (add_onlyRecords p address unit).andThen fun q => ih q _

theorem place_onlyRecords (p : Packer) (address : Int) (emitted : Emission) :
    OnlyRecords (p.place address emitted) := by
  cases emitted with
  | unit code => exact add_onlyRecords p address code
  | gap => exact flush_onlyRecords p
  | nothing => exact onlyRecords_done p
  | bytes payload =>
    unfold place
    dsimp only
    split
    · exact onlyRecords_done p
    · unfold addBytes
      split
      · intro n hn
        cases hn
      · exact addChunks_onlyRecords _ p address

theorem OnlyRecords.quiet {x : Step Packer RecordFault} (h : OnlyRecords x) :
    Quiet k (x.toLogged.mapError Fault.record) := by
  intro n hn
  obtain ⟨start, length, rfl⟩ := h n hn
  exact (Option.some_ne_none k).symm

end Packer

namespace ObjectProgram

theorem pack_stricter (h : policy.Allows k) (symbols : SymbolTable) (entries : List Entry) :
    ∀ packer : Packer, Stricter k (Fault.Forbids k)
      (pack table symbols policy.undefinedSymbols packer entries)
      (pack table symbols (policy.forbid k).undefinedSymbols packer entries) := by
  induction entries with
  | nil =>
    intro packer
    exact .refl (quiet_of_log_eq_nil rfl)
  | cons e rest ih =>
    intro packer
    rw [pack, pack]
    split
    · exact .refl (quiet_of_log_eq_nil rfl)
    · apply ((SourceLine.emission_stricter h symbols e.line).mapError fun d hd => ⟨d, rfl, hd⟩).bind
      intro emitted
      apply (Stricter.refl (packer.place_onlyRecords e.address emitted).quiet).bind
      intro packer
      exact ih packer

theorem ofLayout_stricter (h : policy.Allows k) (l : Layout) :
    Stricter k (Fault.Forbids k) (ofLayout table policy l)
      (ofLayout table (policy.forbid k) l) := by
  unfold ofLayout
  apply (Stricter.refl (quiet_of_log_eq_nil rfl)).bind
  intro first
  apply (pack_stricter h l.symbols l.entries _).bind
  intro packer
  apply (Stricter.refl packer.flush_onlyRecords.quiet).bind
  intro packer
  apply (Stricter.refl (quiet_of_log_eq_nil rfl)).bind
  intro last
  apply (Stricter.refl (quiet_note rfl)).bind
  intro _
  exact .refl (quiet_of_log_eq_nil rfl)

end ObjectProgram

namespace OpcodeTable

theorem addAll_quiet (entries : List OpcodeEntry) :
    ∀ table : OpcodeTable, Quiet k (table.addAll entries : Logged Diagnostic OpcodeTable) := by
  induction entries with
  | nil =>
    intro table
    exact quiet_of_log_eq_nil rfl
  | cons e entries ih =>
    intro table
    apply Quiet.bind _ ih
    unfold add
    dsimp only
    split
    · split
      · exact quiet_of_log_eq_nil rfl
      · exact quiet_of_log_eq_singleton rfl (by simp [Notice.allowance?])
    · exact quiet_of_log_eq_nil rfl

theorem load_quiet (filename : String) (lines : List String) : Quiet k (load filename lines) := by
  apply Quiet.bind (quiet_of_log_eq_nil rfl)
  intro entries
  apply (addAll_quiet entries .empty).bind
  intro table
  apply (quiet_note rfl).bind
  intro _
  exact quiet_of_log_eq_nil rfl

end OpcodeTable

theorem OpcodeSource.load_quiet (filename : String) (opcodes : OpcodeSource) :
    Quiet k (opcodes.load filename) := by
  cases opcodes with
  | standard => exact quiet_of_log_eq_nil rfl
  | ready table => exact quiet_of_log_eq_nil rfl
  | text contents => exact OpcodeTable.load_quiet filename _
  | lines contents => exact OpcodeTable.load_quiet filename contents

namespace Assembly

variable {opcodes : OpcodeSource} {lines : List String}

/-- To forbid what a policy allows changes a run only if it warns of that, and then the run
fails. -/
theorem ofLines_stricter (h : policy.Allows k) (opcodes : OpcodeSource) (filename : String)
    (lines : List String) :
    Stricter k (Fault.Forbids k) (ofLines policy opcodes filename lines)
      (ofLines (policy.forbid k) opcodes filename lines) := by
  have hload : Quiet k ((opcodes.load opcodesName).mapError Fault.diagnostic) :=
    OpcodeSource.load_quiet opcodesName opcodes
  apply (Stricter.refl hload).bind
  intro table
  apply (Stricter.refl (quiet_note rfl)).bind
  intro _
  apply ((Layout.ofLines_stricter h lines).mapError fun d hd => ⟨d, rfl, hd⟩).bind
  intro l
  apply (ObjectProgram.ofLayout_stricter h l).bind
  intro records
  apply (Stricter.refl (quiet_note rfl)).bind
  intro _
  exact .refl (quiet_of_log_eq_nil rfl)

/-- Every policy forbids some of what the default one allows. -/
theorem ofLines_default {a : Assembly}
    (h : (ofLines policy opcodes filename lines).result = .ok a) :
    (ofLines {} opcodes filename lines).result = .ok a := by
  have hforbid : ∀ {p : Policy} {k : Allowance}, p.Allows k →
      (ofLines (p.forbid k) opcodes filename lines).result = .ok a →
      (ofLines p opcodes filename lines).result = .ok a := by
    intro p k hallows
    exact (ofLines_stricter hallows opcodes filename lines).result_eq_ok
  obtain ⟨undefined, duplicates⟩ := policy
  cases undefined with
  | lenient =>
    cases duplicates with
    | overwrite => exact h
    | reject => exact hforbid (p := {}) (k := .redefinedLabels) rfl h
  | strict =>
    cases duplicates with
    | overwrite => exact hforbid (p := {}) (k := .undefinedOperands) rfl h
    | reject =>
      apply hforbid (p := {}) (k := .undefinedOperands) rfl
      exact hforbid (p := ⟨.strict, .overwrite⟩) (k := .redefinedLabels) rfl h

end Assembly

/-- What a run gives under some policy it gives under the default one too. To forbid what the
default policy allows leaves a run as it is if it does not warn of that, and otherwise makes it fail
with a diagnostic of that family. A diagnostic of a label that is defined again is about the first
line that does so, and holds the address of the entry that has the label already. -/
theorem strict_policies_only_reject (opcodes : OpcodeSource) (filename : String)
    (lines : List String) :
    (∀ policy a, (Assembly.ofLines policy opcodes filename lines).result = .ok a →
      (Assembly.ofLines {} opcodes filename lines).result = .ok a) ∧
    (∀ k, (∀ n ∈ (Assembly.ofLines {} opcodes filename lines).log, n.allowance? ≠ some k) →
      Assembly.ofLines (Policy.forbid {} k) opcodes filename lines =
        Assembly.ofLines {} opcodes filename lines) ∧
    (∀ k, ∀ n ∈ (Assembly.ofLines {} opcodes filename lines).log, n.allowance? = some k →
      ∃ d, (Assembly.ofLines (Policy.forbid {} k) opcodes filename lines).result =
        .error (.diagnostic d) ∧ d.problem.family = k.family) ∧
    (∀ policy d,
      (Assembly.ofLines policy opcodes filename lines).result = .error (.diagnostic d) →
      d.problem.family = .duplicateSymbol →
      ∃ table line e, (opcodes.load Assembly.opcodesName).result = .ok table ∧
        Layout.FirstDuplicate table policy filename lines line e ∧
        d = SymbolTable.duplicate line.label e.address (some line)) := by
  have hallows : ∀ k, Policy.Allows {} k := by
    intro k
    cases k with
    | undefinedOperands => rfl
    | redefinedLabels => rfl
  refine ⟨fun policy a => Assembly.ofLines_default, ?_, ?_, fun policy d =>
    Assembly.ofLines_duplicate⟩
  · intro k hquiet
    exact (Assembly.ofLines_stricter (hallows k) opcodes filename lines).eq_of_quiet hquiet
  · intro k n hn hwarns
    obtain ⟨_, herror, d, rfl, hd⟩ :=
      (Assembly.ofLines_stricter (hallows k) opcodes filename lines).fails_of_mem hn hwarns
    exact ⟨d, herror, hd⟩

/-- A program with an operand that no label defines and two labels that are defined again. -/
def warnedProgram : List String :=
  ["P START 1000", "A LDA NOPE", "B WORD 1", "A WORD 2", "B LDA A", "- END P"]

theorem strict_runs_of_warned_program :
    (∃ a, (Assembly.ofLines {} .standard "<input>" warnedProgram).result = .ok a ∧
      a.symbolTable = ["A\t1006", "B\t1009"]) ∧
    (∃ d, (Assembly.ofLines ⟨.strict, .overwrite⟩ .standard "<input>" warnedProgram).result =
      .error (.diagnostic d) ∧ d.problem.family = .undefinedSymbol) ∧
    (∃ line e, (Assembly.ofLines ⟨.lenient, .reject⟩ .standard "<input>" warnedProgram).result =
        .error (.diagnostic (SymbolTable.duplicate "A" 0x1000 (some line))) ∧
      line.location = ⟨"<input>", 4, 0⟩ ∧ e.address = 0x1000 ∧
      Layout.FirstDuplicate .standard ⟨.lenient, .reject⟩ "<input>" warnedProgram line e) ∧
    ∃ a, (Assembly.ofLines {} .standard "<input>" commentedProgram).result = .ok a ∧
      a.symbolTable = ["A\t1000", "B\t1003", "C\t1009"] ∧
      (Assembly.ofLines ⟨.strict, .overwrite⟩ .standard "<input>" commentedProgram).result =
        .ok a := by
  obtain ⟨-, -, hfails, hduplicate⟩ :=
    strict_policies_only_reject .standard "<input>" warnedProgram
  refine ⟨?_, ?_, ?_, ?_⟩
  · have hrun : ∃ a, (Assembly.ofLines {} .standard "<input>" warnedProgram).result = .ok a ∧
        decide (a.symbolTable = ["A\t1006", "B\t1009"]) = true :=
      Logged.exists_of_any (by decide +kernel)
    obtain ⟨a, ha, hsymbols⟩ := hrun
    exact ⟨a, ha, of_decide_eq_true hsymbols⟩
  · have hlog : .undefinedOperand ⟨"<input>", 2, 0⟩ "NOPE" ∈
        (Assembly.ofLines {} .standard "<input>" warnedProgram).log := by decide +kernel
    exact hfails .undefinedOperands _ hlog rfl
  · have hrun : (Assembly.ofLines ⟨.lenient, .reject⟩ .standard "<input>" warnedProgram).result =
        .error (.diagnostic ⟨.duplicateSymbol "A" 0x1000, some ⟨"<input>", 4, 0⟩,
          some "A WORD 2", none⟩) := by decide +kernel
    obtain ⟨_, line, e, ⟨⟩, hfirst, hd⟩ := hduplicate _ _ hrun rfl
    simp only [SymbolTable.duplicate, Option.map_some, Diagnostic.mk.injEq,
      Problem.duplicateSymbol.injEq, Option.some.injEq, and_true] at hd
    obtain ⟨⟨hlabel, haddress⟩, hlocation, htext⟩ := hd
    refine ⟨line, e, ?_, hlocation.symm, haddress.symm, hfirst⟩
    rw [hrun, SymbolTable.duplicate, Option.map_some, Option.map_some, ← hlocation, ← htext]
  · have hrun : ∃ a, (Assembly.ofLines {} .standard "<input>" commentedProgram).result = .ok a ∧
        decide (a.symbolTable = ["A\t1000", "B\t1003", "C\t1009"]) = true :=
      Logged.exists_of_any (by decide +kernel)
    obtain ⟨a, ha, hsymbols⟩ := hrun
    have hquiet : ∀ n ∈ (Assembly.ofLines {} .standard "<input>" commentedProgram).log,
        n.allowance? ≠ some .undefinedOperands := by decide +kernel
    have hsame := (strict_policies_only_reject .standard "<input>" commentedProgram).2.1
      .undefinedOperands hquiet
    exact ⟨a, ha, of_decide_eq_true hsymbols, (congrArg Logged.result hsame).trans ha⟩

end SicAssembler
