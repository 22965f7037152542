import SicAssembler.OpcodeTable
import SicAssembler.Proofs.Fields
import SicAssembler.Proofs.HexText
import SicAssembler.Proofs.InsertionOrder

/-!
# Opcode tables from lines

A table cannot be loaded exactly if a line that is not blank is no mnemonic with a hexadecimal code,
and the diagnostic is about the first such line. Otherwise the table has the mnemonics of the lines
in the order in which they come first, each with the code that comes last, and there is a warning
for each line that changes a code. A table that is written out loads to itself.
-/

namespace SicAssembler

namespace Text

theorem fields_eq_nil_iff {s : String} : fields s = [] ↔ ∀ c ∈ s.toList, isBlank c = true := by
  constructor
  · intro h
    have hruns : runs s.toList = [] := List.map_eq_nil_iff.mp h
    have hhead := head?_runs s.toList
    rw [hruns] at hhead
    exact List.dropWhile_eq_nil_iff.mp (List.head?_eq_none_iff.mp hhead.symm)
  · intro h
    rw [fields, runs_of_blanks h, List.map_nil]

theorem upper_of_isCapitalHex {s : String} (h : IsCapitalHex s) : upper s = s := by
  have hdigits : capitalDigits.all (fun c => c.toUpper == c) = true := by decide
  have hsame : s.toList.map Char.toUpper = s.toList := by
    refine (List.map_congr_left fun c hc => ?_).trans (List.map_id _)
    exact beq_iff_eq.mp (List.all_eq_true.mp hdigits c (h c hc))
  rw [upper, hsame, String.ofList_toList]

theorem isHex_iff_of_field {s : String} (h : fields s = [s]) :
    isHex s = true ↔ ∀ c ∈ s.toList, c ∈ asciiHexDigits := by
  have hne : s.toList.isEmpty = false := by simpa using (not_blank_of_fields h).1
  simp [isHex, hne, mem_asciiHexDigits_iff]

theorem fields_upper {s : String} (h : fields s = [s])
    (hdigits : ∀ c ∈ s.toList, c ∈ asciiHexDigits) : fields (upper s) = [upper s] := by
  have hne : (upper s).toList ≠ [] := by simpa [upper] using (not_blank_of_fields h).1
  have hcapital : IsCapitalHex (upper s) :=
    isCapitalHex_upper fun c hc => mem_asciiHexDigits_iff.mp (hdigits c hc)
  have hblank : ∀ c ∈ (upper s).toList, isBlank c = false :=
    fun c hc => isBlank_of_isHexDigit (hcapital.isHexDigit c hc)
  rw [fields, runs_eq_singleton hne hblank, List.map_singleton, String.ofList_toList]

end Text

namespace OpcodeEntry

/-- Whether a line is not blank and no mnemonic with a hexadecimal code. -/
def Malformed (text : String) : Prop :=
  (∃ c ∈ text.toList, Text.isBlank c = false) ∧
    ¬∃ mnemonic code, Text.fields text = [mnemonic, code] ∧
      ∀ c ∈ code.toList, c ∈ Text.asciiHexDigits

/-- The entry that a line stands for, with its code in capitals. -/
def ofText? (text : String) : Option OpcodeEntry :=
  match Text.fields text with
  | [mnemonic, code] => some ⟨mnemonic, Text.upper code⟩
  | _ => none

def ofTexts (lines : List String) : List OpcodeEntry := lines.filterMap ofText?

def lastCode (mnemonic : String) (entries : List OpcodeEntry) : Option String :=
  (entries.filter (·.mnemonic = mnemonic)).getLast?.map code

/-- The warning that an entry changes the code of a mnemonic of an entry before it. -/
def redefinition? (before : List OpcodeEntry) (e : OpcodeEntry) : Option Notice :=
  ((lastCode e.mnemonic before).filter (· ≠ e.code)).map (.opcodeRedefined e.mnemonic · e.code)

def redefinitions (entries : List OpcodeEntry) : List Notice :=
  (entries.mapIdx fun i e => (e.redefinition? (entries.take i)).toList).flatten

variable {filename text : String} {n : Nat} {lines rest : List String}

theorem cases_of_not_malformed (h : ¬Malformed text) :
    Text.fields text = [] ∨ ∃ mnemonic code, Text.fields text = [mnemonic, code] ∧
      ∀ c ∈ code.toList, c ∈ Text.asciiHexDigits := by
  by_cases hblank : Text.fields text = []
  · exact .inl hblank
  · right
    by_contra hnot
    rw [Text.fields_eq_nil_iff] at hblank
    push Not at hblank
    obtain ⟨c, hc, hcblank⟩ := hblank
    exact h ⟨⟨c, hc, by simpa using hcblank⟩, hnot⟩

theorem fields_of_fields_eq {mnemonic code : String} (h : Text.fields text = [mnemonic, code]) :
    Text.fields mnemonic = [mnemonic] ∧ Text.fields code = [code] := by
  constructor
  · exact Text.fields_of_mem_fields (t := text) (by simp [h])
  · exact Text.fields_of_mem_fields (t := text) (by simp [h])

/-- Reading goes on after a line that is not malformed, with the entry that the line stands for. -/
theorem parseFrom_cons_of_not_malformed (h : ¬Malformed text) :
    parseFrom filename n (text :: rest) =
      (parseFrom filename (n + 1) rest).map ((ofText? text).toList ++ ·) := by
  rw [parseFrom, ofText?]
  rcases cases_of_not_malformed h with hblank | ⟨mnemonic, code, hfields, hdigits⟩
  · rw [hblank]
    cases parseFrom filename (n + 1) rest <;> rfl
  · have hhex : Text.isHex code = true :=
      (Text.isHex_iff_of_field (fields_of_fields_eq hfields).2).mpr hdigits
    simp only [parse, hfields, hhex]
    rfl

theorem parseFrom_cons_of_malformed (h : Malformed text) :
    ∃ d, parseFrom filename n (text :: rest) = .error d ∧ d.problem.family = .opcodeEntry ∧
      d.location = some ⟨filename, n, 0⟩ ∧ d.sourceLine = some (Text.chomp text) := by
  obtain ⟨⟨c, hc, hcblank⟩, hnot⟩ := h
  have hfields : (Text.fields text).isEmpty = false := by
    rw [List.isEmpty_eq_false_iff, Ne, Text.fields_eq_nil_iff]
    intro hblank
    rw [hblank c hc] at hcblank
    cases hcblank
  rw [parseFrom, if_neg (by simp [hfields]), parse]
  dsimp only
  split
  · rename_i e hparse
    split at hparse
    · rename_i mnemonic code htext
      split at hparse
      · rename_i hhex
        have hcode := (fields_of_fields_eq htext).2
        exact absurd ⟨mnemonic, code, htext, (Text.isHex_iff_of_field hcode).mp hhex⟩ hnot
      · cases hparse
    · cases hparse
  · rename_i d hparse
    split at hparse
    · split at hparse
      · cases hparse
      · cases hparse
        exact ⟨_, rfl, rfl, rfl, rfl⟩
    · cases hparse
      exact ⟨_, rfl, rfl, rfl, rfl⟩

theorem ofTexts_cons (text : String) (lines : List String) :
    ofTexts (text :: lines) = (ofText? text).toList ++ ofTexts lines := by
  rw [ofTexts, List.filterMap_cons]
  cases ofText? text <;> rfl

/-- Lines that are not malformed are read, and reading goes on after them. -/
theorem parseFrom_append (h : ∀ text ∈ lines, ¬Malformed text) :
    ∀ n, parseFrom filename n (lines ++ rest) =
      (parseFrom filename (n + lines.length) rest).map (ofTexts lines ++ ·) := by
  induction lines with
  | nil =>
    intro n
    rw [List.nil_append, List.length_nil, Nat.add_zero]
    cases parseFrom filename n rest <;> rfl
  | cons text lines ih =>
    intro n
    rw [List.forall_mem_cons] at h
    have hnext : n + 1 + lines.length = n + (text :: lines).length := by
      rw [List.length_cons]
      omega
    rw [List.cons_append, parseFrom_cons_of_not_malformed h.1, ih h.2 (n + 1), hnext, ofTexts_cons]
    cases parseFrom filename (n + (text :: lines).length) rest with
    | error d => rfl
    | ok entries => exact congrArg Except.ok (List.append_assoc _ _ _).symm

theorem parseFrom_of_not_malformed (h : ∀ text ∈ lines, ¬Malformed text) (n : Nat) :
    parseFrom filename n lines = .ok (ofTexts lines) := by
  have hread : parseFrom filename n (lines ++ []) = _ := parseFrom_append h n
  rw [List.append_nil, parseFrom] at hread
  rw [hread]
  exact congrArg Except.ok (List.append_nil _)

theorem exists_first_malformed (h : ∃ text ∈ lines, Malformed text) :
    ∃ before text after, lines = before ++ text :: after ∧ (∀ t ∈ before, ¬Malformed t) ∧
      Malformed text := by
  induction lines with
  | nil =>
    obtain ⟨text, htext, -⟩ := h
    cases htext
  | cons head rest ih =>
    by_cases hhead : Malformed head
    · exact ⟨[], head, rest, rfl, List.forall_mem_nil _, hhead⟩
    · rw [List.exists_mem_cons_iff] at h
      obtain ⟨before, text, after, rfl, hbefore, htext⟩ := ih (h.resolve_left hhead)
      exact ⟨head :: before, text, after, rfl, List.forall_mem_cons.mpr ⟨hhead, hbefore⟩, htext⟩

end OpcodeEntry

namespace OpcodeTable

open OpcodeEntry

variable {filename : String} {lines : List String}

def pair (e : OpcodeEntry) : String × String := (e.mnemonic, e.code)

theorem pair_injective : Function.Injective pair := by
  rintro ⟨mnemonic, code⟩ ⟨_, _⟩ h
  cases h
  rfl

theorem lastOf_map_pair (mnemonic : String) (entries : List OpcodeEntry) :
    Dictionary.lastOf mnemonic (entries.map pair) = lastCode mnemonic entries := by
  rw [Dictionary.lastOf, lastCode, List.filter_map, List.getLast?_map, Option.map_map]
  rfl

/-- Adding an entry to those before reports what the entry changes. -/
theorem add_eq {ε : Type} (before : List OpcodeEntry) (e : OpcodeEntry) :
    (add (Dictionary.empty.insertAll (before.map pair)) e : Logged ε OpcodeTable) =
      ⟨(e.redefinition? before).toList,
        .ok (Dictionary.empty.insertAll ((before ++ [e]).map pair))⟩ := by
  have hcode : (Dictionary.empty.insertAll (before.map pair)).get? e.mnemonic =
      lastCode e.mnemonic before := by
    rw [Dictionary.get?_insertAll, lastOf_map_pair]
    exact Option.or_none
  rw [add, hcode, redefinition?, List.map_append, List.map_singleton, Dictionary.insertAll_concat]
  cases lastCode e.mnemonic before with
  | none => rfl
  | some code =>
    dsimp only
    split
    · rename_i hsame
      rw [Option.filter_some, if_neg (by simp [hsame])]
      rfl
    · rename_i hother
      rw [Option.filter_some, if_pos (by simp [hother])]
      rfl

theorem addAll_eq {ε : Type} (entries : List OpcodeEntry) :
    ∀ before : List OpcodeEntry,
      (addAll (Dictionary.empty.insertAll (before.map pair)) entries : Logged ε OpcodeTable) =
        ⟨(entries.mapIdx fun i e => (e.redefinition? (before ++ entries.take i)).toList).flatten,
          .ok (Dictionary.empty.insertAll ((before ++ entries).map pair))⟩ := by
  induction entries with
  | nil =>
    intro before
    rw [addAll, List.append_nil]
    rfl
  | cons e entries ih =>
    intro before
    rw [addAll, add_eq, Logged.bind_of_ok rfl, ih (before ++ [e]), List.mapIdx_cons,
      List.flatten_cons, List.take_zero, List.append_nil]
    simp only [List.take_succ_cons, List.append_assoc, List.singleton_append]

/-- The table that lines stand for: their mnemonics in order, each with its last code. -/
def ofTexts (lines : List String) : OpcodeTable :=
  Dictionary.empty.insertAll ((OpcodeEntry.ofTexts lines).map pair)

/-- Lines of which none is malformed load to the table that they stand for. -/
theorem load_of_not_malformed (h : ∀ text ∈ lines, ¬Malformed text) :
    load filename lines =
      ⟨redefinitions (OpcodeEntry.ofTexts lines) ++ [.opcodesLoaded (ofTexts lines).size filename],
        .ok (ofTexts lines)⟩ := by
  have hadd : (addAll Dictionary.empty (OpcodeEntry.ofTexts lines) : Logged Diagnostic _) = _ :=
    addAll_eq (OpcodeEntry.ofTexts lines) []
  rw [load, parseFrom_of_not_malformed h, Logged.bind_of_ok rfl, ofEntries, hadd,
    Logged.bind_of_ok rfl, Logged.bind_of_ok rfl]
  rfl

/-- Where some line is malformed, loading fails at the first of them. -/
theorem load_of_malformed {before : List String} {text : String}
    (hbefore : ∀ t ∈ before, ¬Malformed t) (htext : Malformed text) (filename : String)
    (after : List String) :
    ∃ d, load filename (before ++ text :: after) = ⟨[], .error d⟩ ∧
      d.problem.family = .opcodeEntry ∧ d.location = some ⟨filename, before.length + 1, 0⟩ ∧
      d.sourceLine = some (Text.chomp text) := by
  obtain ⟨d, hd, hfamily, hlocation, hsource⟩ :
      ∃ d, parseFrom filename (1 + before.length) (text :: after) = .error d ∧ _ :=
    parseFrom_cons_of_malformed htext
  refine ⟨d, ?_, hfamily, ?_, hsource⟩
  · rw [load, parseFrom_append hbefore, hd]
    rfl
  · rw [hlocation]
    congr 2
    push_cast
    omega

/-- The entries of lines are a mnemonic that is a field with a hexadecimal code in capitals. -/
theorem exists_line_of_mem_ofTexts (h : ∀ text ∈ lines, ¬Malformed text) {e : OpcodeEntry}
    (he : e ∈ OpcodeEntry.ofTexts lines) :
    Text.fields e.mnemonic = [e.mnemonic] ∧ Text.fields e.code = [e.code] ∧
      Text.IsCapitalHex e.code := by
  obtain ⟨text, htext, hofText⟩ := List.mem_filterMap.mp he
  rw [ofText?] at hofText
  rcases cases_of_not_malformed (h text htext) with hblank | ⟨mnemonic, code, hfields, hdigits⟩
  · rw [hblank] at hofText
    cases hofText
  · rw [hfields] at hofText
    cases hofText
    obtain ⟨hmnemonic, hcode⟩ := fields_of_fields_eq hfields
    exact ⟨hmnemonic, Text.fields_upper hcode hdigits,
      Text.isCapitalHex_upper fun c hc => Text.mem_asciiHexDigits_iff.mp (hdigits c hc)⟩

theorem fields_text {e : OpcodeEntry} (hmnemonic : Text.fields e.mnemonic = [e.mnemonic])
    (hcode : Text.fields e.code = [e.code]) : Text.fields e.text = [e.mnemonic, e.code] := by
  have htext : e.text = String.ofList (e.mnemonic.toList ++ ' ' :: e.code.toList) := by
    apply String.toList_injective
    change (e.mnemonic ++ " " ++ e.code).toList = _
    simp
  rw [htext, Text.fields_append_blank hmnemonic rfl, String.ofList_toList, hcode]

theorem ofText?_text {e : OpcodeEntry} (hmnemonic : Text.fields e.mnemonic = [e.mnemonic])
    (hcode : Text.fields e.code = [e.code]) (hcapital : Text.IsCapitalHex e.code) :
    ¬Malformed e.text ∧ ofText? e.text = some e := by
  have hfields := fields_text hmnemonic hcode
  constructor
  · rintro ⟨-, hnot⟩
    exact hnot ⟨e.mnemonic, e.code, hfields,
      fun c hc => Text.mem_asciiHexDigits_iff.mpr (hcapital.isHexDigit c hc)⟩
  · rw [ofText?, hfields]
    dsimp only
    rw [Text.upper_of_isCapitalHex hcapital]

theorem redefinitions_of_nodup {entries : List OpcodeEntry}
    (h : (entries.map OpcodeEntry.mnemonic).Nodup) : redefinitions entries = [] := by
  rw [redefinitions, List.flatten_eq_nil_iff]
  intro warnings hwarnings
  obtain ⟨i, hi, rfl⟩ := List.mem_mapIdx.mp hwarnings
  have hnew : entries[i].mnemonic ∉ ((entries.take i).map pair).map Prod.fst := by
    rw [← List.take_append_drop i entries, List.drop_eq_getElem_cons hi, List.map_append,
      List.map_cons, List.nodup_append] at h
    rw [List.map_map]
    intro hmem
    exact h.2.2 _ hmem _ List.mem_cons_self rfl
  rw [redefinition?, ← lastOf_map_pair, Dictionary.lastOf_eq_none hnew]
  rfl

theorem map_pair_toEntries (table : OpcodeTable) : table.toEntries.map pair = table.entries := by
  rw [toEntries, List.map_map]
  exact List.map_id _

theorem mem_ofTexts_of_mem_toEntries {e : OpcodeEntry} (h : e ∈ (ofTexts lines).toEntries) :
    e ∈ OpcodeEntry.ofTexts lines := by
  have hnodup : (ofTexts lines).keys.Nodup := Dictionary.nodup_keys_insertAll _ List.nodup_nil
  have hmem : pair e ∈ (ofTexts lines).entries := by
    rw [← map_pair_toEntries]
    exact List.mem_map_of_mem h
  have hget := Dictionary.get?_of_mem_entries hnodup hmem
  rw [ofTexts, Dictionary.get?_insertAll] at hget
  have hlast : Dictionary.lastOf e.mnemonic ((OpcodeEntry.ofTexts lines).map pair) = some e.code :=
    Option.or_none.symm.trans hget
  exact (List.mem_map_of_injective pair_injective).mp (Dictionary.mem_of_lastOf hlast)

/-- The lines of a table that was loaded load to the table, without warnings. -/
theorem load_toEntries (h : ∀ text ∈ lines, ¬Malformed text) (filename : String) :
    load filename ((ofTexts lines).toEntries.map OpcodeEntry.text) =
      ⟨[.opcodesLoaded (ofTexts lines).size filename], .ok (ofTexts lines)⟩ := by
  have hnodup : (ofTexts lines).keys.Nodup := Dictionary.nodup_keys_insertAll _ List.nodup_nil
  have hproper : ∀ e ∈ (ofTexts lines).toEntries, ¬Malformed e.text ∧ ofText? e.text = some e := by
    intro e he
    obtain ⟨hmnemonic, hcode, hcapital⟩ :=
      exists_line_of_mem_ofTexts h (mem_ofTexts_of_mem_toEntries he)
    exact ofText?_text hmnemonic hcode hcapital
  have hentries : OpcodeEntry.ofTexts ((ofTexts lines).toEntries.map OpcodeEntry.text) =
      (ofTexts lines).toEntries := by
    rw [OpcodeEntry.ofTexts, List.filterMap_map]
    exact (List.filterMap_congr fun e he => (hproper e he).2).trans List.filterMap_some
  have htable : ofTexts ((ofTexts lines).toEntries.map OpcodeEntry.text) = ofTexts lines := by
    rw [ofTexts, hentries, map_pair_toEntries, Dictionary.insertAll_empty_of_nodup hnodup]
  have hmnemonics : ((ofTexts lines).toEntries.map OpcodeEntry.mnemonic).Nodup := by
    rw [toEntries, List.map_map]
    exact hnodup
  rw [load_of_not_malformed (List.forall_mem_map.mpr fun e he => (hproper e he).1), htable,
    hentries, redefinitions_of_nodup hmnemonics, List.nil_append]

theorem keys_ofTexts (h : ∀ text ∈ lines, ¬Malformed text) :
    (ofTexts lines).keys = (lines.filterMap fun text => (Text.fields text).head?).eraseDups := by
  rw [ofTexts, Dictionary.keys_insertAll_empty, List.map_map, OpcodeEntry.ofTexts,
    List.map_filterMap]
  congr 1
  apply List.filterMap_congr
  intro text htext
  rw [ofText?]
  rcases cases_of_not_malformed (h text htext) with hblank | ⟨mnemonic, code, hfields, -⟩
  · rw [hblank]
    rfl
  · rw [hfields]
    rfl

theorem get?_ofTexts (mnemonic : String) (lines : List String) :
    (ofTexts lines).get? mnemonic = lastCode mnemonic (OpcodeEntry.ofTexts lines) := by
  rw [ofTexts, Dictionary.get?_insertAll, lastOf_map_pair]
  exact Option.or_none

theorem level_of_mem_redefinitions {entries : List OpcodeEntry} {n : Notice}
    (h : n ∈ redefinitions entries) : n.level = .warning := by
  obtain ⟨warnings, hwarnings, hn⟩ := List.mem_flatten.mp h
  obtain ⟨i, hi, rfl⟩ := List.mem_mapIdx.mp hwarnings
  obtain ⟨code, -, rfl⟩ := Option.map_eq_some_iff.mp (Option.mem_toList.mp hn)
  rfl

theorem warnings_load (h : ∀ text ∈ lines, ¬Malformed text) (filename : String) :
    (load filename lines).log.filter (·.level = .warning) =
      redefinitions (OpcodeEntry.ofTexts lines) := by
  have hall : (redefinitions (OpcodeEntry.ofTexts lines)).filter (·.level = .warning) =
      redefinitions (OpcodeEntry.ofTexts lines) :=
    List.filter_eq_self.mpr fun n hn => decide_eq_true (level_of_mem_redefinitions hn)
  rw [load_of_not_malformed h, List.filter_append, hall]
  exact List.append_nil _

end OpcodeTable

open OpcodeEntry OpcodeTable

/-- Loading fails exactly if some line that is not blank is no mnemonic with a hexadecimal code. The
diagnostic is then about the first such line, all lines counted, and nothing is reported. Otherwise
the table has the first fields of the lines in the order in which they come first, each with the
code of its last line in capitals; there is one warning for each line that changes the code then in
force; and the lines that the table is written as load to the same table, without warnings. -/
theorem opcode_table_is_told_by_lines (filename : String) (lines : List String) :
    ((∃ d, (load filename lines).result = .error d) ↔ ∃ text ∈ lines, Malformed text) ∧
    (∀ d, (load filename lines).result = .error d → d.problem.family = .opcodeEntry ∧
      (load filename lines).log = [] ∧
      ∃ before text after, lines = before ++ text :: after ∧ (∀ t ∈ before, ¬Malformed t) ∧
        Malformed text ∧ d.location = some ⟨filename, before.length + 1, 0⟩ ∧
        d.sourceLine = some (Text.chomp text)) ∧
    ∀ table, (load filename lines).result = .ok table →
      table.keys = (lines.filterMap fun text => (Text.fields text).head?).eraseDups ∧
      (∀ mnemonic, table.get? mnemonic = lastCode mnemonic (OpcodeEntry.ofTexts lines)) ∧
      (load filename lines).log.filter (·.level = .warning) =
        redefinitions (OpcodeEntry.ofTexts lines) ∧
      ∀ name, load name (table.toEntries.map OpcodeEntry.text) =
        ⟨[.opcodesLoaded table.size name], .ok table⟩ := by
  by_cases h : ∃ text ∈ lines, Malformed text
  · obtain ⟨before, text, after, rfl, hbefore, htext⟩ := exists_first_malformed h
    obtain ⟨d, hload, hfamily, hlocation, hsource⟩ := load_of_malformed hbefore htext filename after
    rw [hload]
    refine ⟨⟨fun _ => h, fun _ => ⟨d, rfl⟩⟩, ?_, ?_⟩
    · rintro _ ⟨⟩
      exact ⟨hfamily, rfl, before, text, after, rfl, hbefore, htext, hlocation, hsource⟩
    · rintro _ ⟨⟩
  · have hnone : ∀ text ∈ lines, ¬Malformed text := fun text htext hbad => h ⟨text, htext, hbad⟩
    have hload : (load filename lines).result = .ok (OpcodeTable.ofTexts lines) := by
      rw [load_of_not_malformed hnone]
    rw [hload]
    refine ⟨⟨?_, fun hbad => absurd hbad h⟩, ?_, ?_⟩
    · rintro ⟨_, ⟨⟩⟩
    · rintro _ ⟨⟩
    · rintro _ ⟨⟩
      exact ⟨keys_ofTexts hnone, fun mnemonic => get?_ofTexts mnemonic lines,
        warnings_load hnone filename, load_toEntries hnone⟩

/-- Lines that give a mnemonic other codes and the same code in other letters. -/
def respeltOpcodes : List String := ["ADD 18", "", "lda\t0a", "ADD 1c\r\n", " ADD 1C", "lda 0A"]

def respeltTable : OpcodeTable := ⟨[("ADD", "1C"), ("lda", "0A")]⟩

def malformedOpcodes : List String := ["ADD 18", " \n", "LDA 0g\r\n", "LDA", "ADD 1C"]

theorem opcode_table_of_respelt_lines :
    ((load "t" respeltOpcodes).result = .ok respeltTable ∧ respeltTable.keys = ["ADD", "lda"] ∧
      respeltTable.get? "ADD" = some "1C" ∧
      (load "t" respeltOpcodes).log.filter (·.level = .warning) =
        [.opcodeRedefined "ADD" "18" "1C"] ∧
      load "t" ["ADD 1C", "lda 0A"] = ⟨[.opcodesLoaded 2 "t"], .ok respeltTable⟩) ∧
    ∃ d before text after, (load "t" malformedOpcodes).result = .error d ∧
      malformedOpcodes = before ++ text :: after ∧ before.length = 2 ∧
      (∀ t ∈ before, ¬Malformed t) ∧ Malformed text := by
  constructor
  · have hload : (load "t" respeltOpcodes).result = .ok respeltTable := by decide +kernel
    obtain ⟨-, -, htable⟩ := opcode_table_is_told_by_lines "t" respeltOpcodes
    obtain ⟨hkeys, hcodes, hwarnings, hreload⟩ := htable respeltTable hload
    exact ⟨hload, hkeys.trans (by decide +kernel), (hcodes "ADD").trans (by decide +kernel),
      hwarnings.trans (by decide +kernel), hreload "t"⟩
  · obtain ⟨-, hfails, -⟩ := opcode_table_is_told_by_lines "t" malformedOpcodes
    let d : Diagnostic :=
      ⟨.opcodeNotHex "0g" "LDA", some ⟨"t", 3, 0⟩, some "LDA 0g", none⟩
    have hload : (load "t" malformedOpcodes).result = .error d := by decide +kernel
    obtain ⟨-, -, before, text, after, hlines, hbefore, htext, hlocation, -⟩ := hfails d hload
    have hline : (3 : Int) = before.length + 1 := by
      injection Option.some.inj hlocation
    exact ⟨d, before, text, after, hload, hlines, by omega, hbefore, htext⟩

end SicAssembler
