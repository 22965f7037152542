import SicAssembler.Proofs.Fields
import SicAssembler.Proofs.Listing
import SicAssembler.Proofs.Unencodable

/-!
# Codes that are too short or too long

An opcode table takes codes of any number of hexadecimal digits. An instruction whose code is not
whole bytes, or leaves no room for an address, makes no text record, and a run that reaches it fails
without a diagnostic. Codes that fit in records are all that it takes for every failure of a run to
be a diagnostic.
-/

namespace SicAssembler

variable {table : OpcodeTable} {symbols : SymbolTable} {undefinedSymbols : UndefinedSymbols}

theorem unitSize_le_unitsSize {unit : String} {units : List String} (h : unit ∈ units) :
    unitSize unit ≤ unitsSize units := by
  obtain ⟨before, after, rfl⟩ := List.append_of_mem h
  rw [unitsSize_append, unitsSize_cons]
  omega

/-- A layout with an instruction whose code does not fit in a text record. -/
def Layout.HasMisfit (table : OpcodeTable) (l : Layout) : Prop :=
  ∃ e ∈ l.coded, ∃ code, table.get? e.line.mnemonic = some code ∧ ¬ FitsInstruction code

theorem Layout.fitsInstruction_of_not_hasMisfit {l : Layout} (h : ¬ l.HasMisfit table) :
    ∀ e ∈ l.coded, ∀ code, table.get? e.line.mnemonic = some code → FitsInstruction code := by
  intro e he code hc
  by_contra hnot
  exact h ⟨e, he, code, hc, hnot⟩

namespace ObjectProgram

variable {policy : Policy} {l : Layout}

theorem Packed.fitsInstruction {records : List Record}
    (h : Packed table undefinedSymbols l records) {e : Entry} (he : e ∈ l.coded) {code : String}
    (hc : table.get? e.line.mnemonic = some code) : FitsInstruction code := by
  obtain ⟨i, hi⟩ := List.mem_iff_getElem?.mp he
  -- The instruction is one piece, and some record holds it.
  have hpiece : (⟨i, e, 0, e.line.encoding table l.symbols⟩ : Piece) ∈ l.pieces table := by
    refine Layout.mem_pieces_iff.mpr ⟨i, e, hi, ?_⟩
    simp [Entry.pieces, SourceLine.units, Dictionary.contains, hc, Entry.cut]
  rw [← Layout.flatten_groups] at hpiece
  obtain ⟨g, hg, hmem⟩ := List.mem_flatten.mp hpiece
  obtain ⟨-, hhex, hlength⟩ := TextRecord.fault?_eq_none.mp (h.made g hg)
  have hunit : e.line.encoding table l.symbols ∈ (Piece.record g).units :=
    List.mem_map_of_mem (f := Piece.code) hmem
  have hfits : FitsRecord (e.line.encoding table l.symbols) :=
    ⟨hhex _ hunit, Nat.le_trans (unitSize_le_unitsSize hunit) hlength⟩
  obtain ⟨em, hem⟩ := h.emission e he
  cases SourceLine.emits_of_emission hem with
  | instruction hc' ha =>
    obtain ⟨rfl, hmax, -⟩ := SourceLine.operandAddress_eq_ok ha
    rw [SourceLine.encoding_of_get? hc] at hfits
    exact (fitsRecord_instruction_iff (h.laid.operandValue_nonneg e.line) hmax).mp hfits
  | word hc' _ _ => simp [hc] at hc'
  | byte hc' _ _ => simp [hc] at hc'
  | gap hc' _ => simp [hc] at hc'
  | nothing hc' _ _ _ => simp [hc] at hc'

/-- Packing fails at an entry that emits nothing, or because a record is refused. -/
theorem pack_eq_error {entries : List Entry} {f : Fault} :
    ∀ {p : Packer}, (pack table symbols undefinedSymbols p entries).result = .error f →
      (∃ r, f = .record r) ∨ ∃ e ∈ entries, ∃ d,
        (e.line.emission table symbols undefinedSymbols).result = .error d ∧ f = .diagnostic d := by
  induction entries with
  | nil =>
    intro p h
    cases h
  | cons e rest ih =>
    intro p h
    rw [pack] at h
    split at h
    · cases h
    · simp only [Logged.result_bind_eq_error, Logged.result_mapError_eq_error] at h
      rcases h with ⟨d, hd, rfl⟩ | ⟨em, -, ⟨r, -, rfl⟩ | ⟨q, -, hrest⟩⟩
      · exact .inr ⟨e, List.mem_cons_self, d, hd, rfl⟩
      · exact .inl ⟨r, rfl⟩
      · rcases ih hrest with hr | ⟨e', he', hd⟩
        · exact .inl hr
        · exact .inr ⟨e', List.mem_cons_of_mem e he', hd⟩

theorem ofLayout_eq_error {f : Fault} (h : (ofLayout table policy l).result = .error f) :
    (∃ r, f = .record r) ∨ ∃ e ∈ l.coded, ∃ d,
      (e.line.emission table l.symbols policy.undefinedSymbols).result = .error d ∧
        f = .diagnostic d := by
  simp only [ofLayout, Logged.result_bind_eq_error, Logged.result_mapError_eq_error,
    Logged.result_note, Logged.result_pure, reduceCtorEq, and_false, exists_false, or_false] at h
  rcases h with ⟨r, -, rfl⟩ | ⟨first, -, hpack | ⟨q, -, ⟨r, -, rfl⟩ | ⟨q, -, r, -, rfl⟩⟩⟩
  · exact .inl ⟨r, rfl⟩
  · rw [← pack_takeWhile] at hpack
    exact pack_eq_error hpack
  · exact .inl ⟨r, rfl⟩
  · exact .inl ⟨r, rfl⟩

/-- Only a code that does not fit makes a record that is refused. -/
theorem hasMisfit_of_refused (hlaid : Layout.Laid table l) {r : RecordFault}
    (h : (ofLayout table policy l).result = .error (.record r)) : l.HasMisfit table := by
  by_contra hno
  have hplaceable := hlaid.placeable (Layout.fitsInstruction_of_not_hasMisfit hno)
  obtain ⟨e, problem, -, hf⟩ := (ofLayout_eq_error_iff hlaid hplaceable).mp h
  cases hf

/-- Where all entries have code, an object program is refused exactly if a code does not fit. -/
theorem refused_iff_of_encodable (hlaid : Layout.Laid table l)
    (hcode : ∀ e ∈ l.coded, ∀ problem,
      ¬ e.line.Unencodable table l.symbols policy.undefinedSymbols problem) :
    (∃ r, (ofLayout table policy l).result = .error (.record r)) ↔ l.HasMisfit table := by
  constructor
  · rintro ⟨r, hr⟩
    exact hasMisfit_of_refused hlaid hr
  · rintro ⟨e, he, code, hc, hnot⟩
    cases hresult : (ofLayout table policy l).result with
    | ok records =>
      exact absurd ((packed_of_ofLayout hlaid hresult).fitsInstruction he hc) hnot
    | error f =>
      rcases ofLayout_eq_error hresult with ⟨r, rfl⟩ | ⟨e', he', d, hd, rfl⟩
      · exact ⟨r, rfl⟩
      · obtain ⟨n, hn, -, -⟩ := hlaid.inside_of_mem_coded he'
        obtain ⟨problem, hproblem, -⟩ := SourceLine.exists_unencodable hn hd
        exact absurd hproblem (hcode e' he' problem)

end ObjectProgram

/-- A run fails where its opcodes are read, where it is laid out, or where its object program is
made. -/
theorem Assembly.ofLines_eq_error_iff {policy : Policy} {opcodes : OpcodeSource}
    {filename : String} {lines : List String} {f : Fault} :
    (Assembly.ofLines policy opcodes filename lines).result = .error f ↔
      (∃ d, (opcodes.load opcodesName).result = .error d ∧ f = .diagnostic d) ∨
      ∃ table, (opcodes.load opcodesName).result = .ok table ∧
        ((∃ d, (Layout.ofLines table policy filename lines).result = .error d ∧
            f = .diagnostic d) ∨
          ∃ l, (Layout.ofLines table policy filename lines).result = .ok l ∧
            (ObjectProgram.ofLayout table policy l).result = .error f) := by
  simp only [ofLines, ofTable, Logged.result_bind_eq_error, Logged.result_mapError_eq_error,
    Logged.result_mapError_eq_ok, Logged.result_note, Logged.result_pure, reduceCtorEq, false_or,
    and_false, exists_false, or_false, true_and, exists_const]

def instructionProgram (mnemonic : String) : List String :=
  ["- START 0", "- " ++ mnemonic ++ " -"]

namespace SourceLine

theorem parse_instruction {mnemonic : String} (h : Text.fields mnemonic = [mnemonic]) (n : Int)
    (filename : String) :
    isComment ("- " ++ mnemonic ++ " -") = false ∧
      parse ("- " ++ mnemonic ++ " -") n filename =
        .ok ⟨absent, mnemonic, absent, n, filename, "- " ++ mnemonic ++ " -"⟩ := by
  have hlist : ("- " ++ mnemonic ++ " -").toList =
      '-' :: ' ' :: (mnemonic.toList ++ [' ', '-']) := by
    simp
  have hchomp : Text.chomp ("- " ++ mnemonic ++ " -") = "- " ++ mnemonic ++ " -" := by
    apply String.toList_injective
    simp [Text.chomp, Text.dropEndWhile]
  constructor
  · rw [isComment, hlist]
    rfl
  · simp [parse, hchomp, Text.fields_between_dashes h, absent]

end SourceLine

namespace Layout

theorem scan_single {duplicates : DuplicateLabels} {filename : String} {counter : LocationCounter}
    {line : SourceLine} {n : Nat} (hm : line.mnemonic ≠ "END") (hl : line.hasLabel = false)
    (hn : line.size table = .ok n) (hmax : counter.value + n ≤ maxAddress) :
    (scan table duplicates filename counter symbols [.ok line]).result =
      .ok ⟨[⟨counter.value, line⟩], symbols, ⟨counter.start, counter.value + n⟩⟩ := by
  have hlabel : (enterLabel duplicates symbols counter.value line).result = .ok symbols := by
    simp [enterLabel, hl]
  have hpass : (passOver table counter line).result = .ok ⟨counter.start, counter.value + n⟩ := by
    simp [passOver, Logged.result_bind_eq_ok, hn, LocationCounter.advance, Int.not_lt.mpr hmax,
      Step.done]
  rw [scan, if_neg hm]
  simp only [Logged.result_bind_eq_ok]
  exact ⟨symbols, hlabel, _, hpass, ⟨[], symbols, _⟩, rfl, rfl⟩

theorem ofLines_instructionProgram {mnemonic code : String} {policy : Policy} {filename : String}
    (hfield : Text.fields mnemonic = [mnemonic]) (hend : mnemonic ≠ "END")
    (hc : table.get? mnemonic = some code) :
    ∃ (l : Layout) (line : SourceLine),
      (ofLines table policy filename (instructionProgram mnemonic)).result = .ok l ∧
      l.coded = [⟨0, line⟩] ∧ line.mnemonic = mnemonic ∧ line.operand = SourceLine.absent := by
  let head : SourceLine := ⟨"-", "START", "0", 1, filename, "- START 0"⟩
  let line : SourceLine :=
    ⟨SourceLine.absent, mnemonic, SourceLine.absent, 2, filename, "- " ++ mnemonic ++ " -"⟩
  have hhead : SourceLine.isComment "- START 0" = false ∧
      SourceLine.parse "- START 0" 1 filename = .ok head := ⟨rfl, rfl⟩
  have hline := SourceLine.parse_instruction hfield 2 filename
  have hstatements : SourceLine.statements filename (instructionProgram mnemonic) =
      [.ok head, .ok line] := by
    simp [SourceLine.statements, instructionProgram, SourceLine.statementsFrom, hhead, hline, line]
  have hzero : Text.hexadecimal? "0" = some 0 := by decide +kernel
  have hstart : head.startAddress = .ok 0 := by
    simp [SourceLine.startAddress, head, hzero, maxAddress]
  have hsize : line.size table = .ok 3 := by
    simp [line, SourceLine.size, Dictionary.contains, hc, SourceLine.instructionSize]
  have hscan : (scan table policy.duplicateLabels filename (.startingAt 0) .empty
      [.ok line]).result = .ok ⟨[⟨0, line⟩], .empty, ⟨0, 3⟩⟩ :=
    scan_single hend rfl hsize (by decide)
  refine ⟨⟨⟨"", 0, 3⟩, .empty, some ⟨0, head⟩, [⟨0, line⟩], 3⟩, line, ?_, ?_, rfl, rfl⟩
  · rw [ofLines, hstatements, ofStatements, if_pos rfl]
    simp only [Logged.result_bind_eq_ok, Logged.result_ofExcept, body]
    exact ⟨0, hstart, _, rfl, _, hscan, _, rfl, rfl⟩
  · simp [coded, Entry.isEnd, line, hend, SourceLine.absent]

theorem fields_mnemonic_of_mem {policy : Policy} {filename : String} {lines : List String}
    {l : Layout} (h : (ofLines table policy filename lines).result = .ok l) {e : Entry}
    (he : e ∈ l.entries) : Text.fields e.line.mnemonic = [e.line.mnemonic] := by
  obtain ⟨after, hparsed, -⟩ := ofLines_statements h
  have hmem : .ok e.line ∈ SourceLine.parsed filename lines := by
    rw [hparsed]
    simp only [List.mem_append, List.mem_map]
    exact .inl ⟨e, .inr he, rfl⟩
  obtain ⟨⟨text, n⟩, -, hline⟩ := List.mem_map.mp hmem
  exact SourceLine.fields_mnemonic hline

end Layout

namespace Assembly

variable {policy : Policy} {opcodes : OpcodeSource} {filename : String} {lines : List String}

theorem refused_iff {l : Layout} {r : RecordFault}
    (hload : (opcodes.load opcodesName).result = .ok table)
    (hl : (Layout.ofLines table policy filename lines).result = .ok l) :
    (ofLines policy opcodes filename lines).result = .error (.record r) ↔
      (ObjectProgram.ofLayout table policy l).result = .error (.record r) := by
  simp [ofLines_eq_error_iff, hload, hl]

theorem fault_cases {f : Fault} (h : (ofLines policy opcodes filename lines).result = .error f) :
    (∃ d, f = .diagnostic d) ∨
      (∃ r, f = .record r) ∧ ∃ table l, (opcodes.load opcodesName).result = .ok table ∧
        (Layout.ofLines table policy filename lines).result = .ok l ∧ l.HasMisfit table := by
  rcases ofLines_eq_error_iff.mp h with
    ⟨d, -, rfl⟩ | ⟨table, hload, ⟨d, -, rfl⟩ | ⟨l, hl, herror⟩⟩
  · exact .inl ⟨d, rfl⟩
  · exact .inl ⟨d, rfl⟩
  · rcases ObjectProgram.ofLayout_eq_error herror with ⟨r, rfl⟩ | ⟨e, -, d, -, rfl⟩
    · have hmisfit := ObjectProgram.hasMisfit_of_refused (Layout.ofLines_laid hl) herror
      exact .inr ⟨⟨r, rfl⟩, table, l, hload, hl, hmisfit⟩
    · exact .inl ⟨d, rfl⟩

theorem instructionProgram_refused {mnemonic code : String}
    (hload : (opcodes.load opcodesName).result = .ok table)
    (hfield : Text.fields mnemonic = [mnemonic]) (hend : mnemonic ≠ "END")
    (hc : table.get? mnemonic = some code) (hnot : ¬ FitsInstruction code) :
    ∃ r, (ofLines policy opcodes filename (instructionProgram mnemonic)).result =
      .error (.record r) := by
  obtain ⟨l, line, hl, hcoded, rfl, hoperand⟩ := Layout.ofLines_instructionProgram hfield hend hc
  have hcontains : table.contains line.mnemonic = true := by simp [Dictionary.contains, hc]
  have hcode : ∀ e ∈ l.coded, ∀ problem,
      ¬ e.line.Unencodable table l.symbols policy.undefinedSymbols problem := by
    rw [hcoded, List.forall_mem_singleton]
    intro problem hproblem
    cases hproblem with
    | undefinedOperand _ _ ho _ => exact ho hoperand
    | addressTooWide _ ho _ _ => exact ho hoperand
    | wordNotDecimal hf _ _ => simp [hcontains] at hf
    | wordTooWide hf _ _ _ => simp [hcontains] at hf
    | literalCharacter hf _ _ _ => simp [hcontains] at hf
  have hmisfit : l.HasMisfit table := ⟨⟨0, line⟩, by simp [hcoded], code, hc, hnot⟩
  have hlaid := Layout.ofLines_laid hl
  obtain ⟨r, hr⟩ := (ObjectProgram.refused_iff_of_encodable hlaid hcode).mpr hmisfit
  exact ⟨r, (refused_iff hload hl).mpr hr⟩

end Assembly

/-- A run fails with a diagnostic, unless the code of one of its instructions is not whole bytes or
leaves no room for an address; where all entries have code, such an instruction does make it fail.
Failures are all diagnostics exactly for the opcodes whose codes fit, as far as a program can use
them. -/
theorem failures_are_diagnostics_iff_codes_fit (opcodes : OpcodeSource) :
    (∀ policy filename lines f,
      (Assembly.ofLines policy opcodes filename lines).result = .error f →
      (∃ d, f = .diagnostic d) ∨
        (∃ r, f = .record r) ∧ ∃ table l,
          (opcodes.load Assembly.opcodesName).result = .ok table ∧
          (Layout.ofLines table policy filename lines).result = .ok l ∧ l.HasMisfit table) ∧
    (∀ policy filename lines table l,
      (opcodes.load Assembly.opcodesName).result = .ok table →
      (Layout.ofLines table policy filename lines).result = .ok l →
      (∀ e ∈ l.coded, ∀ problem,
        ¬ e.line.Unencodable table l.symbols policy.undefinedSymbols problem) →
      ((∃ r, (Assembly.ofLines policy opcodes filename lines).result = .error (.record r)) ↔
        l.HasMisfit table)) ∧
    ((∀ policy filename lines f,
      (Assembly.ofLines policy opcodes filename lines).result = .error f →
      ∃ d, f = .diagnostic d) ↔
      ∀ table, (opcodes.load Assembly.opcodesName).result = .ok table →
        ∀ mnemonic code, Text.fields mnemonic = [mnemonic] → mnemonic ≠ "END" →
          table.get? mnemonic = some code → FitsInstruction code) := by
  refine ⟨fun _ _ _ _ => Assembly.fault_cases, ?_, ?_, ?_⟩
  · intro policy filename lines table l hload hl hcode
    rw [← ObjectProgram.refused_iff_of_encodable (Layout.ofLines_laid hl) hcode]
    exact exists_congr fun r => Assembly.refused_iff hload hl
  · intro hdiagnostics table hload mnemonic code hfield hend hc
    by_contra hnot
    obtain ⟨r, hr⟩ := Assembly.instructionProgram_refused hload hfield hend hc hnot
    obtain ⟨d, hd⟩ := hdiagnostics {} Assembly.sourceName _ _ hr
    cases hd
  · intro hfits policy filename lines f h
    rcases Assembly.fault_cases h with hd | ⟨-, table, l, hload, hl, hmisfit⟩
    · exact hd
    · obtain ⟨e, he, code, hc, hnot⟩ := hmisfit
      have hfield := Layout.fields_mnemonic_of_mem hl ((List.takeWhile_sublist _).mem he)
      have hend : e.line.mnemonic ≠ "END" := by
        intro hm
        simpa [Entry.isEnd, hm] using Layout.isEnd_of_mem_coded he
      exact absurd (hfits table hload _ code hfield hend hc) hnot

theorem one_digit_code_fails_without_diagnostic :
    ∃ f, (Assembly.ofLines {} (.text "LDA 0") "<input>"
        ["P START 0", "- LDA -", "- END P"]).result = .error f ∧ ∀ d, f ≠ .diagnostic d := by
  have hrun : (Assembly.ofLines {} (.text "LDA 0") "<input>"
      ["P START 0", "- LDA -", "- END P"]).result = .error (.record (.unitNotBytes "00000")) := by
    decide +kernel
  exact ⟨_, hrun, fun d hd => by cases hd⟩

end SicAssembler
