import SicAssembler.Proofs.Spacing
import SicAssembler.Proofs.Strictness

/-!
# What a run warns of

The warnings of a run can be told from its listing. While the program is laid out, entry by entry,
there is one for each label that an entry before has already and one for each mnemonic that is
neither in the opcode table nor a directive. Then there is one if the source has no end. The
operands come last: there is one for each that no label of the whole program defines, up to where
object code stops.
-/

namespace SicAssembler

universe u

/-- The wording of the warnings about a program. -/
inductive Notice.Says : Notice → String → Prop where
  | labelRedefined (label : String) (before after : Int) :
      Says (.labelRedefined label before after) ("Label '" ++ label ++ "' redefined: " ++
        Text.hexField 4 before ++ " -> " ++ Text.hexField 4 after)
  | unknownMnemonic (location : Location) (mnemonic : String) :
      Says (.unknownMnemonic location mnemonic)
        (location.text ++ ": unknown mnemonic '" ++ mnemonic ++ "' occupies no space")
  | noEnd (filename : String) :
      Says (.noEnd filename)
        (filename ++ ": no END directive, program ends at end of input")
  | undefinedOperand (location : Location) (operand : String) :
      Says (.undefinedOperand location operand)
        (location.text ++ ": undefined symbol '" ++ operand ++ "', using 0000")

namespace Entry

/-- The warning that an entry gives another address to a label of an entry before it. -/
def redefinition? (before : List Entry) (e : Entry) : Option Notice :=
  if e.line.hasLabel then
    (Layout.lastDefined e.line.label before).map (.labelRedefined e.line.label · e.address)
  else none

def strangeness? (table : OpcodeTable) (e : Entry) : Option Notice :=
  if table.contains e.line.mnemonic ∨ e.line.mnemonic ∈ ["WORD", "BYTE", "RESW", "RESB"] then none
  else some (.unknownMnemonic e.line.location e.line.mnemonic)

/-- The warnings about an entry that is laid out after others. -/
def layingWarnings (table : OpcodeTable) (before : List Entry) (e : Entry) : List Notice :=
  if e.line.mnemonic = "END" then []
  else (e.redefinition? before).toList ++ (e.strangeness? table).toList

theorem says_of_mem_layingWarnings {table : OpcodeTable} {before : List Entry} {e : Entry}
    {n : Notice} (h : n ∈ e.layingWarnings table before) : n.Says n.message := by
  unfold layingWarnings at h
  split at h
  · cases h
  · rw [List.mem_append, Option.mem_toList, Option.mem_toList] at h
    rcases h with h | h
    · unfold redefinition? at h
      split at h
      · obtain ⟨address, -, rfl⟩ := Option.map_eq_some_iff.mp h
        exact .labelRedefined _ _ _
      · cases h
    · unfold strangeness? at h
      split at h
      · cases h
      · cases h
        exact .unknownMnemonic _ _

end Entry

namespace Layout

def layingWarnings (table : OpcodeTable) (entries : List Entry) : List Notice :=
  (entries.mapIdx fun i e => e.layingWarnings table (entries.take i)).flatten

/-- The warnings about operands of instructions that are not labels. -/
def operandWarnings (table : OpcodeTable) (l : Layout) : List Notice :=
  (l.coded.filter fun e => table.contains e.line.mnemonic ∧ e.line.operand ≠ SourceLine.absent ∧
    e.line.operand ∉ labels l.entries).map fun e => .undefinedOperand e.line.location e.line.operand

theorem says_of_mem_layingWarnings {table : OpcodeTable} {entries : List Entry} {n : Notice}
    (h : n ∈ layingWarnings table entries) : n.Says n.message := by
  obtain ⟨_, hentry, hn⟩ := List.mem_flatten.mp h
  obtain ⟨_, _, rfl⟩ := List.mem_mapIdx.mp hentry
  exact Entry.says_of_mem_layingWarnings hn

theorem says_of_mem_operandWarnings {table : OpcodeTable} {l : Layout} {n : Notice}
    (h : n ∈ l.operandWarnings table) : n.Says n.message := by
  obtain ⟨e, -, rfl⟩ := List.mem_map.mp h
  exact .undefinedOperand _ _

end Layout

namespace Logged

variable {ε δ : Type} {α β : Type u} {x : Logged ε α}

def warnings (x : Logged ε α) : List Notice := x.log.filter (·.level = .warning)

theorem warnings_bind {a : α} (h : x.result = .ok a) (f : α → Logged ε β) :
    (x >>= f).warnings = x.warnings ++ (f a).warnings := by
  rw [bind_of_ok h]
  exact List.filter_append x.log (f a).log

theorem warnings_bind_pure (x : Logged ε α) (f : α → β) :
    (x >>= fun a => pure (f a)).warnings = x.warnings := by
  cases h : x.result with
  | ok a =>
    rw [warnings_bind h]
    exact List.append_nil _
  | error e =>
    rw [bind_of_error h]
    rfl

theorem warnings_ofExcept (x : Except ε α) : (ofExcept x).warnings = [] := rfl

theorem warnings_noteIf {n : Notice} (h : n.level = .warning) (c : Bool) :
    (noteIf c n : Logged ε PUnit).warnings = if c then [n] else [] := by
  cases c with
  | false => rfl
  | true => simp [noteIf, note, warnings, h]

end Logged

open Logged

variable {table : OpcodeTable} {filename : String} {lines : List String}

namespace SourceLine

/-- A statement that has a size is unknown if its mnemonic is neither in the table nor a
directive. -/
theorem isUnknown_eq {l : SourceLine} {n : Nat} (h : l.size table = .ok n) :
    l.isUnknown n =
      !decide (table.contains l.mnemonic ∨ l.mnemonic ∈ ["WORD", "BYTE", "RESW", "RESB"]) := by
  unfold size at h
  split at h
  · rename_i hc
    cases h
    rcases Bool.or_eq_true_iff.mp hc with hc | hw
    · simp [isUnknown, instructionSize, hc]
    · simp [isUnknown, instructionSize, of_decide_eq_true hw]
  · rename_i hc
    rw [Bool.or_eq_true_iff, not_or] at hc
    split at h
    · rename_i hb
      simp [isUnknown, emptyDirectives, hb]
    · split at h
      · rename_i hw
        simp [isUnknown, emptyDirectives, hw]
      · split at h
        · rename_i hr
          simp [isUnknown, emptyDirectives, hr]
        · cases h
          simp_all [isUnknown, emptyDirectives]

end SourceLine

namespace Layout

theorem enterLabel_warnings {symbols : SymbolTable} {before : List Entry} {line : SourceLine}
    (h : symbols.get? line.label = lastDefined line.label before) (address : Int) :
    (enterLabel .overwrite symbols address line).warnings =
      (Entry.redefinition? before ⟨address, line⟩).toList := by
  unfold enterLabel Entry.redefinition?
  split
  · unfold SymbolTable.define
    rw [h]
    cases lastDefined line.label before with
    | none => rfl
    | some previous => rfl
  · rfl

theorem passOver_warnings {counter after : LocationCounter} {line : SourceLine}
    (h : (passOver table counter line).result = .ok after) (address : Int) :
    (passOver table counter line).warnings =
      (Entry.strangeness? table ⟨address, line⟩).toList := by
  obtain ⟨n, hn, -, -⟩ := passOver_eq_ok h
  have hadvance : ((counter.advance n).toLogged : Logged Diagnostic LocationCounter).warnings =
      [] := by
    unfold LocationCounter.advance
    dsimp only
    split
    · rfl
    · rfl
  rw [passOver, warnings_bind hn, warnings_bind (Logged.result_noteIf _ _), hadvance,
    warnings_noteIf rfl, SourceLine.isUnknown_eq hn, warnings_ofExcept, List.nil_append,
    List.append_nil, Entry.strangeness?]
  by_cases hknown :
      table.contains line.mnemonic ∨ line.mnemonic ∈ ["WORD", "BYTE", "RESW", "RESB"]
  · rw [if_pos hknown, decide_eq_true hknown]
    rfl
  · rw [if_neg hknown, decide_eq_false hknown]
    rfl

theorem definitions_append (entries more : List Entry) :
    definitions (entries ++ more) = definitions entries ++ definitions more := by
  rw [definitions, List.filter_append, List.map_append, definitions, definitions]

theorem get?_insertAll_definitions (entries : List Entry) (name : String) :
    ((Dictionary.empty : SymbolTable).insertAll (definitions entries)).get? name =
      lastDefined name entries := by
  rw [Dictionary.get?_insertAll, lastOf_definitions]
  exact Option.or_none

/-- A scan that starts with the labels of the entries before warns of its own entries one after
another, and then of an end that is missing. -/
theorem scan_warnings {statements : List (Except Diagnostic SourceLine)} :
    ∀ (before : List Entry) {counter : LocationCounter} {s : Scan},
      (scan table .overwrite filename counter (Dictionary.empty.insertAll (definitions before))
        statements).result = .ok s →
      (scan table .overwrite filename counter (Dictionary.empty.insertAll (definitions before))
        statements).warnings =
        (s.entries.mapIdx fun i e => e.layingWarnings table (before ++ s.entries.take i)).flatten ++
          if s.entries.any (·.line.mnemonic = "END") then [] else [.noEnd filename] := by
  induction statements with
  | nil =>
    intro before counter s h
    cases h
    rfl
  | cons statement rest ih =>
    intro before counter s h
    cases statement with
    | error d => cases h
    | ok line =>
      rw [scan] at h ⊢
      split at h
      · rename_i hm
        cases h
        rw [if_pos hm]
        simp [Entry.layingWarnings, hm, warnings]
      · rename_i hm
        rw [if_neg hm]
        simp only [Logged.result_bind_eq_ok, Logged.result_pure, Except.ok.injEq] at h
        obtain ⟨entered, he, after, hp, t, ht, rfl⟩ := h
        let e : Entry := ⟨counter.value, line⟩
        have hentered : entered = Dictionary.empty.insertAll (definitions (before ++ [e])) := by
          rw [enterLabel_eq_ok hm he, definitions_append, Dictionary.insertAll_append]
        have hrest := hentered ▸ ht
        have hfirst : Entry.layingWarnings table (before ++ []) e =
            (e.redefinition? before).toList ++ (e.strangeness? table).toList := by
          rw [List.append_nil, Entry.layingWarnings, if_neg hm]
        have hany : (e :: t.entries).any (·.line.mnemonic = "END") =
            t.entries.any (·.line.mnemonic = "END") := by
          rw [List.any_cons, decide_eq_false hm, Bool.false_or]
        rw [warnings_bind he, warnings_bind hp, warnings_bind_pure, hentered, ih _ hrest,
          enterLabel_warnings (get?_insertAll_definitions before line.label),
          passOver_warnings hp counter.value, hany, List.mapIdx_cons, List.flatten_cons,
          List.take_zero, hfirst]
        simp only [List.take_succ_cons, List.append_assoc, List.singleton_append]
        rfl

/-- The warnings of a layout are those about its entries, and one if none of them ends it. -/
theorem body_warnings {name : String} {startEntry : Option Entry} {start : Int}
    {statements : List (Except Diagnostic SourceLine)} {l : Layout}
    (h : (body table .overwrite filename name startEntry start statements).result = .ok l) :
    (body table .overwrite filename name startEntry start statements).warnings =
      layingWarnings table l.entries ++
        if l.entries.any (·.line.mnemonic = "END") then [] else [.noEnd filename] := by
  obtain ⟨s, hs, rfl⟩ := body_eq_ok h
  have hscan := scan_warnings [] hs
  simp only [List.nil_append] at hscan
  rw [body, warnings_bind hs, layingWarnings, ← hscan]
  exact List.append_nil _

theorem ofLines_warnings {l : Layout} (h : (ofLines table {} filename lines).result = .ok l) :
    (ofLines table {} filename lines).warnings = layingWarnings table l.entries ++
      if l.entries.any (·.line.mnemonic = "END") then [] else [.noEnd filename] := by
  obtain ⟨first, rest, hfirst, hbody⟩ := ofLines_cases h
  rw [ofLines, hfirst, ofStatements]
  rcases hbody with ⟨hm, start, hstart, hb⟩ | ⟨hm, hb⟩
  · rw [if_pos hm, warnings_bind hstart, warnings_bind rfl]
    exact body_warnings hb
  · rw [if_neg hm, warnings_bind rfl]
    exact body_warnings hb

end Layout

namespace SourceLine

theorem operandAddress_warnings (symbols : SymbolTable) (l : SourceLine) :
    (l.operandAddress symbols .lenient).warnings =
      if l.operand ≠ absent ∧ symbols.get? l.operand = none then
        [.undefinedOperand l.location l.operand]
      else [] := by
  unfold operandAddress
  by_cases ho : l.operand = absent
  · rw [if_pos ho, if_neg fun h => h.1 ho]
    rfl
  · rw [if_neg ho]
    cases symbols.get? l.operand with
    | none =>
      rw [if_pos ⟨ho, rfl⟩]
      rfl
    | some address =>
      rw [if_neg fun h => Option.some_ne_none address h.2]
      dsimp only
      split
      · rfl
      · rfl

theorem emission_warnings (symbols : SymbolTable) (l : SourceLine) :
    (l.emission table symbols .lenient).warnings =
      if table.contains l.mnemonic ∧ l.operand ≠ absent ∧ symbols.get? l.operand = none then
        [.undefinedOperand l.location l.operand]
      else [] := by
  unfold emission
  cases hcode : table.get? l.mnemonic with
  | some code =>
    have hc : table.contains l.mnemonic = true := by rw [Dictionary.contains, hcode, Option.isSome]
    dsimp only
    rw [warnings_bind_pure, operandAddress_warnings]
    simp only [hc, true_and]
  | none =>
    have hc : table.contains l.mnemonic = false := by rw [Dictionary.contains, hcode, Option.isSome]
    have hdirective : ¬(table.contains l.mnemonic = true ∧ l.operand ≠ absent ∧
        symbols.get? l.operand = none) := fun h => Bool.false_ne_true (hc.symm.trans h.1)
    rw [if_neg hdirective]
    dsimp only
    split
    · rfl
    · split
      · rfl
      · split
        · rfl
        · rfl

end SourceLine

theorem Packer.OnlyRecords.warnings_eq_nil {x : Step Packer RecordFault} (h : OnlyRecords x) :
    (x.toLogged.mapError Fault.record).warnings = [] := by
  rw [warnings, List.filter_eq_nil_iff]
  intro n hn
  obtain ⟨start, length, rfl⟩ := h n hn
  simp [Notice.level]

namespace ObjectProgram

theorem pack_warnings {symbols : SymbolTable} {entries : List Entry} :
    ∀ {packer packed : Packer}, (pack table symbols .lenient packer entries).result = .ok packed →
      (pack table symbols .lenient packer entries).warnings =
        ((entries.takeWhile (!·.isEnd)).filter fun e => table.contains e.line.mnemonic ∧
          e.line.operand ≠ SourceLine.absent ∧ symbols.get? e.line.operand = none).map
            fun e => .undefinedOperand e.line.location e.line.operand := by
  induction entries with
  | nil =>
    intro packer packed h
    rfl
  | cons e rest ih =>
    intro packer packed h
    rw [pack] at h ⊢
    split at h
    · rename_i hend
      rw [if_pos hend, List.takeWhile_cons_of_neg (by simp [hend])]
      rfl
    · rename_i hend
      simp only [Logged.result_bind_eq_ok] at h
      obtain ⟨emitted, hemitted, placed, hplaced, hrest⟩ := h
      have hemission : ((e.line.emission table symbols .lenient).mapError
          Fault.diagnostic).warnings = (e.line.emission table symbols .lenient).warnings := rfl
      rw [if_neg hend, warnings_bind hemitted, warnings_bind hplaced, ih hrest, hemission,
        SourceLine.emission_warnings, (packer.place_onlyRecords e.address emitted).warnings_eq_nil,
        List.takeWhile_cons_of_pos (by simp [hend]), List.filter_cons, List.nil_append]
      by_cases hundefined : table.contains e.line.mnemonic ∧ e.line.operand ≠ SourceLine.absent ∧
          symbols.get? e.line.operand = none
      · rw [if_pos hundefined, if_pos (decide_eq_true hundefined)]
        rfl
      · rw [if_neg hundefined, if_neg (by simpa using hundefined)]
        rfl

end ObjectProgram

def SourceLine.hasEnd (lines : List String) : Bool :=
  lines.any fun text => !isComment text && endsProgram (Text.fields text)

theorem SourceLine.exists_fields_of_endsProgram {fields : List String}
    (h : endsProgram fields = true) : ∃ label operand, fields = [label, "END", operand] := by
  unfold endsProgram at h
  split at h
  · rename_i label mnemonic operand
    exact ⟨label, operand, by rw [of_decide_eq_true h]⟩
  · cases h

namespace Layout

variable {l : Layout}

theorem get?_symbols_eq_none_iff (h : (ofLines table {} filename lines).result = .ok l)
    (name : String) : l.symbols.get? name = none ↔ name ∉ labels l.entries := by
  have hcontains : l.symbols.contains name = true ↔ name ∈ labels l.entries := by
    rw [Dictionary.contains_iff_mem_keys, (symbolsOfListing h).keys_eq, List.mem_eraseDups]
  rw [← hcontains, Dictionary.contains, Option.not_isSome_iff_eq_none]

/-- A layout has an entry that ends it exactly if its source has such a line, even where more lines
follow. -/
theorem any_end_eq_hasEnd (h : (ofLines table {} filename lines).result = .ok l) :
    l.entries.any (·.line.mnemonic = "END") = SourceLine.hasEnd lines := by
  rw [Bool.eq_iff_iff, SourceLine.hasEnd, List.any_eq_true, List.any_eq_true]
  constructor
  · rintro ⟨e, he, hm⟩
    obtain ⟨n, text, -, hget, hcomment, hparse⟩ :=
      SourceLine.mem_statements_iff.mp (mem_statements_of_mem_entries h he)
    refine ⟨text, List.mem_of_getElem? hget, ?_⟩
    rw [hcomment, SourceLine.endsProgram_of_parse hparse, hm]
    rfl
  · rintro ⟨text, htext, hends⟩
    rw [Bool.and_eq_true, Bool.not_eq_true'] at hends
    obtain ⟨label, operand, hfields⟩ := SourceLine.exists_fields_of_endsProgram hends.2
    obtain ⟨i, hget⟩ := List.mem_iff_getElem?.mp htext
    let line : SourceLine := ⟨label, "END", operand, (i + 1 : Nat), filename, Text.chomp text⟩
    have hparse : SourceLine.parse text (i + 1 : Nat) filename = .ok line :=
      SourceLine.parse_eq_ok.mpr ⟨hfields, rfl, rfl, rfl⟩
    have hmem : .ok line ∈ SourceLine.statements filename lines :=
      SourceLine.mem_statements_iff.mpr ⟨i + 1, text, by omega, hget, hends.1, hparse⟩
    obtain ⟨after, hparsed, hafter⟩ := ofLines_statements h
    rcases hafter with rfl | ⟨e, he, hm⟩
    · rw [SourceLine.statements_eq_parsed, hparsed, List.append_nil] at hmem
      obtain ⟨e, he, heq⟩ := List.mem_map.mp hmem
      rw [Except.ok.injEq] at heq
      rcases List.mem_append.mp he with hstart | hentry
      · -- The statement at the head is no `END` statement.
        obtain ⟨first, -, ⟨hm, hfirst, -⟩ | ⟨-, hnone, -⟩⟩ := ofLines_head h
        · rw [hfirst, Option.toList_some, List.mem_singleton] at hstart
          have hline : first = line := by
            rw [hstart] at heq
            exact heq
          rw [hline] at hm
          have hsame : "END" = "START" := hm
          exact absurd hsame (by decide)
        · rw [hnone] at hstart
          cases hstart
      · exact ⟨e, hentry, by rw [heq]; rfl⟩
    · exact ⟨e, List.mem_of_getLast? he, decide_eq_true hm⟩

end Layout

theorem ObjectProgram.ofLayout_warnings {l : Layout} {records : List Record}
    (hl : (Layout.ofLines table {} filename lines).result = .ok l)
    (h : (ofLayout table {} l).result = .ok records) :
    (ofLayout table {} l).warnings = l.operandWarnings table := by
  simp only [ofLayout, Logged.result_bind_eq_ok] at h
  obtain ⟨first, hfirst, packer, hpack, flushed, hflush, last, hlast, _, -, -⟩ := h
  rw [ofLayout, warnings_bind hfirst, warnings_bind hpack, warnings_bind hflush,
    warnings_bind hlast, warnings_bind rfl, pack_warnings hpack,
    packer.flush_onlyRecords.warnings_eq_nil, Layout.operandWarnings]
  simp only [Layout.get?_symbols_eq_none_iff hl]
  exact List.append_nil _

/-- A run with the default policy and a given opcode table warns of exactly this, in this order: for
each entry that does not end the program, of a label that an entry before has already, with the
address it had last and the new one, and of a mnemonic that is neither in the table nor a directive;
of an end that the source does not have; and for each entry up to where object code stops, of the
operand of an instruction that is no label of the program. The texts that are logged say so. -/
theorem warnings_are_told_by_listing {table : OpcodeTable} {filename : String}
    {lines : List String} {a : Assembly}
    (h : (Assembly.ofLines {} (.ready table) filename lines).result = .ok a) :
    let told := Layout.layingWarnings table a.layout.entries ++
      (if SourceLine.hasEnd lines then [] else [.noEnd filename]) ++
        a.layout.operandWarnings table
    let logged := (Assembly.ofLines {} (.ready table) filename lines).log.filter
      (·.level = .warning)
    logged = told ∧ List.Forall₂ Notice.Says told (logged.map Notice.message) := by
  obtain ⟨hlayout, hrecords⟩ := Assembly.ofLines_eq_ok rfl h
  have hlayout' : ((Layout.ofLines table {} filename lines).mapError Fault.diagnostic).result =
      .ok a.layout := Logged.result_mapError_eq_ok.mpr hlayout
  have hrun : (Assembly.ofLines {} (.ready table) filename lines).warnings =
      (Layout.ofLines table {} filename lines).warnings ++
        (ObjectProgram.ofLayout table {} a.layout).warnings := by
    rw [Assembly.ofLines, warnings_bind rfl, Assembly.ofTable, warnings_bind rfl,
      warnings_bind hlayout', warnings_bind hrecords]
    exact congrArg ((Layout.ofLines table {} filename lines).warnings ++ ·) (List.append_nil _)
  rw [Layout.ofLines_warnings hlayout, Layout.any_end_eq_hasEnd hlayout,
    ObjectProgram.ofLayout_warnings hlayout hrecords, warnings] at hrun
  dsimp only
  rw [hrun]
  refine ⟨rfl, ?_⟩
  rw [List.forall₂_map_right_iff, List.forall₂_same, List.forall_mem_append, List.forall_mem_append]
  refine ⟨⟨fun _ => Layout.says_of_mem_layingWarnings, ?_⟩,
    fun _ => Layout.says_of_mem_operandWarnings⟩
  intro n hn
  split at hn
  · cases hn
  · obtain rfl := List.mem_singleton.mp hn
    exact .noEnd filename

/-- A program without an end, in which object code stops at an operand that is written `END`. -/
def irregularProgram : List String :=
  ["P START 1000", "A LDA NOPE", "A FOO A", "A WORD 2", "- LDA P", "- J END", "- LDA NOPE"]

theorem warnings_of_irregular_program :
    ∃ a, (Assembly.ofLines {} (.ready .standard) "<input>" irregularProgram).result = .ok a ∧
      a.layout.entries.length = 6 ∧ a.layout.coded.length = 4 ∧
      (Assembly.ofLines {} (.ready .standard) "<input>" irregularProgram).log.filter
          (·.level = .warning) =
        [.labelRedefined "A" 0x1000 0x1003, .unknownMnemonic ⟨"<input>", 3, 0⟩ "FOO",
          .labelRedefined "A" 0x1003 0x1003] ++ [.noEnd "<input>"] ++
        [.undefinedOperand ⟨"<input>", 2, 0⟩ "NOPE", .undefinedOperand ⟨"<input>", 5, 0⟩ "P"] ∧
      ((Assembly.ofLines {} (.ready .standard) "<input>" irregularProgram).log.filter
          (·.level = .warning)).map Notice.message =
        ["Label 'A' redefined: 1000 -> 1003", "<input>:3: unknown mnemonic 'FOO' occupies no space",
          "Label 'A' redefined: 1003 -> 1003",
          "<input>: no END directive, program ends at end of input",
          "<input>:2: undefined symbol 'NOPE', using 0000",
          "<input>:5: undefined symbol 'P', using 0000"] := by
  have hrun : ∃ a, (Assembly.ofLines {} (.ready .standard) "<input>" irregularProgram).result =
      .ok a ∧ decide (a.layout.entries.length = 6 ∧ a.layout.coded.length = 4 ∧
        Layout.layingWarnings .standard a.layout.entries =
          [.labelRedefined "A" 0x1000 0x1003, .unknownMnemonic ⟨"<input>", 3, 0⟩ "FOO",
            .labelRedefined "A" 0x1003 0x1003] ∧
        a.layout.operandWarnings .standard =
          [.undefinedOperand ⟨"<input>", 2, 0⟩ "NOPE",
            .undefinedOperand ⟨"<input>", 5, 0⟩ "P"]) = true :=
    Logged.exists_of_any (by decide +kernel)
  obtain ⟨a, ha, hfacts⟩ := hrun
  obtain ⟨hentries, hcoded, hlaying, hoperands⟩ := of_decide_eq_true hfacts
  have hend : SourceLine.hasEnd irregularProgram = false := by decide +kernel
  obtain ⟨hlogged, -⟩ := warnings_are_told_by_listing ha
  rw [hlaying, hoperands, hend] at hlogged
  refine ⟨a, ha, hentries, hcoded, hlogged, ?_⟩
  rw [hlogged]
  decide +kernel

end SicAssembler
