import SicAssembler.Proofs.Labels
import SicAssembler.Proofs.Reassembly
import SicAssembler.Proofs.Saving

/-!
# Artifacts can be read back

A line of an artifact is made of fields without blanks, with one kind of blank between them. So the
fields are found again in the line, and with them the record or the symbol that it shows; and a file
of such lines has no other lines.
-/

namespace SicAssembler

namespace Text

def hexNumber (cs : List Char) : Nat := positional 16 (cs.map fun c => (hexValue? c).getD 0)

theorem hexNumber_concat (cs : List Char) (c : Char) :
    hexNumber (cs ++ [c]) = hexNumber cs * 16 + (hexValue? c).getD 0 := by
  simp [hexNumber, positional]

theorem hexValue?_hexDigit : ∀ d < 16, hexValue? (hexDigit d) = some d := by decide

theorem hexNumber_hexDigits (n : Nat) : hexNumber (hexDigits n) = n := by
  induction n using hexDigits.induct with
  | case1 n h =>
    rw [hexDigits, if_pos h]
    simp [hexNumber, positional, hexValue?_hexDigit n h]
  | case2 n h ih =>
    rw [hexDigits, if_neg h, hexNumber_concat, ih,
      hexValue?_hexDigit _ (Nat.mod_lt n (by decide)), Option.getD_some]
    omega

theorem hexNumber_padZeros (width : Nat) (cs : List Char) :
    hexNumber (padZeros width cs) = hexNumber cs := by
  rw [padZeros]
  induction width - cs.length with
  | zero => rfl
  | succ n ih => exact ih

theorem hexNumber_hexField {width : Nat} {v : Int} (h : 0 ≤ v) :
    hexNumber (hexField width v).toList = v := by
  obtain ⟨n, rfl⟩ := Int.eq_ofNat_of_zero_le h
  change (hexNumber (String.ofList (padZeros width (hexDigits n))).toList : Int) = n
  rw [String.toList_ofList, hexNumber_padZeros, hexNumber_hexDigits]

/-- Whether characters hold no blank. -/
def Solid (cs : List Char) : Prop := ∀ c ∈ cs, isBlank c = false

theorem solid_append {cs ds : List Char} (hcs : Solid cs) (hds : Solid ds) : Solid (cs ++ ds) :=
  List.forall_mem_append.mpr ⟨hcs, hds⟩

theorem solid_of_isHexDigit {cs : List Char} (h : ∀ c ∈ cs, isHexDigit c = true) : Solid cs :=
  fun c hc => isBlank_of_isHexDigit (h c hc)

theorem solid_hexField {width : Nat} {v : Int} (h : 0 ≤ v) : Solid (hexField width v).toList :=
  solid_of_isHexDigit (isHexDigit_of_mem_hexField h)

theorem solid_of_fields {s : String} (h : fields s = [s]) : Solid s.toList :=
  (not_blank_of_fields h).2

theorem isBlank_of_isLineEnd {c : Char} (h : isLineEnd c = true) : isBlank c = true := by
  simp only [isLineEnd, Bool.or_eq_true, Bool.and_eq_true, decide_eq_true_eq, beq_iff_eq] at h
  simp only [isBlank, Bool.or_eq_true, Bool.and_eq_true, decide_eq_true_eq, beq_iff_eq]
  omega

theorem Solid.isLineEnd {cs : List Char} (h : Solid cs) : ∀ c ∈ cs, isLineEnd c = false := by
  intro c hc
  rw [Bool.eq_false_iff]
  intro hend
  have hblank := isBlank_of_isLineEnd hend
  rw [h c hc] at hblank
  cases hblank

/-- Solid runs with blanks between them are the fields of the line that they make. -/
theorem runs_intercalate {mark : Char} {parts : List (List Char)} (hmark : isBlank mark = true)
    (h : ∀ part ∈ parts, part ≠ [] ∧ Solid part) : runs ([mark].intercalate parts) = parts := by
  induction parts with
  | nil => rfl
  | cons part parts ih =>
    rw [List.forall_mem_cons] at h
    obtain ⟨⟨hne, hsolid⟩, hparts⟩ := h
    by_cases hlast : parts = []
    · rw [hlast, List.intercalate_singleton, runs_eq_singleton hne hsolid]
    · have hstart : startsField (mark :: [mark].intercalate parts) = false := by
        simp [startsField, hmark]
      rw [List.intercalate_cons_of_ne_nil hlast, List.append_assoc, List.singleton_append,
        runs_append hne hsolid hstart, runs, if_pos hmark, ih hparts]

section Marks

variable {mark : Char} {runs : List (List Char)}

theorem cutAt_intercalate_of_solid (hmark : isBlank mark = true) (h : ∀ run ∈ runs, Solid run)
    (hne : runs ≠ []) : cutAt mark ([mark].intercalate runs) = runs := by
  apply cutAt_intercalate _ hne
  intro run hrun hmem
  rw [h run hrun mark hmem] at hmark
  cases hmark

/-- A line of solid runs holds no line end but those between the runs. -/
theorem isLineEnd_of_mem_intercalate (hmark : isLineEnd mark = false)
    (h : ∀ run ∈ runs, Solid run) : ∀ c ∈ [mark].intercalate runs, isLineEnd c = false := by
  induction runs with
  | nil => exact List.forall_mem_nil _
  | cons run runs ih =>
    rw [List.forall_mem_cons] at h
    by_cases hruns : runs = []
    · rw [hruns, List.intercalate_singleton]
      exact h.1.isLineEnd
    · rw [List.intercalate_cons_of_ne_nil hruns, List.forall_mem_append, List.forall_mem_append]
      exact ⟨⟨h.1.isLineEnd, List.forall_mem_singleton.mpr hmark⟩, ih h.2⟩

end Marks

end Text

namespace Record

/-- What stands between the spaces of the line that shows a record. -/
def parts : Record → List (List Char)
  | header name start length =>
    ["H^".toList, name.toList ++ ['^'], (Text.hexField 6 start).toList ++ ['^'],
      (Text.hexField 6 length).toList]
  | text r =>
    ("T" :: Text.hexField 6 r.start :: r.units).map (fun part => part.toList ++ ['^']) ++ [[]]
  | finish address => ["E^".toList, (Text.hexField 6 address).toList]

theorem parts_ne_nil (r : Record) : r.parts ≠ [] := by
  cases r with
  | header name start length => exact List.cons_ne_nil _ _
  | text r => exact List.cons_ne_nil _ _
  | finish address => exact List.cons_ne_nil _ _

private theorem toList_join_marked (parts : List String) :
    (String.join (parts.map (· ++ "^ "))).toList =
      [' '].intercalate (parts.map (fun part => part.toList ++ ['^']) ++ [[]]) := by
  induction parts with
  | nil => rfl
  | cons part parts ih =>
    rw [List.map_cons, String.join_cons, String.toList_append, ih, List.map_cons, List.cons_append,
      List.intercalate_cons_of_ne_nil (by simp)]
    simp

theorem toList_render (r : Record) : r.render.toList = [' '].intercalate r.parts := by
  cases r with
  | header name start length => simp [render, parts, List.intercalate_cons_cons]
  | text r => exact toList_join_marked _
  | finish address => simp [render, parts, List.intercalate_cons_cons]

/-- A record that a line can show: its numbers are not negative and its texts hold no blanks. -/
def Legible : Record → Prop
  | header name start length => Text.Solid name.toList ∧ 0 ≤ start ∧ 0 ≤ length
  | text r => 0 ≤ r.start ∧ ∀ unit ∈ r.units, Text.Solid unit.toList
  | finish address => 0 ≤ address

theorem Legible.solid {r : Record} (h : r.Legible) : ∀ part ∈ r.parts, Text.Solid part := by
  have hmark : Text.Solid ['^'] := List.forall_mem_singleton.mpr rfl
  have hletter (c : Char) (hc : Text.isBlank c = false) : Text.Solid [c, '^'] :=
    List.forall_mem_cons.mpr ⟨hc, hmark⟩
  cases r with
  | header name start length =>
    obtain ⟨hname, hstart, hlength⟩ := h
    simp only [parts, List.forall_mem_cons]
    exact ⟨hletter 'H' rfl, Text.solid_append hname hmark,
      Text.solid_append (Text.solid_hexField hstart) hmark, Text.solid_hexField hlength,
      List.forall_mem_nil _⟩
  | text r =>
    obtain ⟨hstart, hunits⟩ := h
    simp only [parts, List.map_cons, List.cons_append, List.forall_mem_cons,
      List.forall_mem_append]
    refine ⟨hletter 'T' rfl, Text.solid_append (Text.solid_hexField hstart) hmark, ?_,
      List.forall_mem_nil _, List.forall_mem_nil _⟩
    intro part hpart
    obtain ⟨unit, hunit, rfl⟩ := List.mem_map.mp hpart
    exact Text.solid_append (hunits unit hunit) hmark
  | finish address =>
    simp only [parts, List.forall_mem_cons]
    exact ⟨hletter 'E' rfl, Text.solid_hexField h, List.forall_mem_nil _⟩

/-- Reads the record that a line shows. -/
def read (line : String) : Option Record :=
  -- A name may hold the mark too, so the line is cut at the spaces and not at the marks.
  match Text.cutAt ' ' line.toList with
  | [['H', '^'], name, start, length] =>
    some (.header (String.ofList name.dropLast) (Text.hexNumber start.dropLast)
      (Text.hexNumber length))
  | ['T', '^'] :: start :: units =>
    some (.text ⟨Text.hexNumber start.dropLast,
      units.dropLast.map fun unit => String.ofList unit.dropLast⟩)
  | [['E', '^'], address] => some (.finish (Text.hexNumber address))
  | _ => none

/-- A record is read back from the line that shows it. -/
theorem read_render {r : Record} (h : r.Legible) : read r.render = some r := by
  unfold read
  rw [toList_render, Text.cutAt_intercalate_of_solid rfl h.solid r.parts_ne_nil]
  cases r with
  | header name start length =>
    obtain ⟨-, hstart, hlength⟩ := h
    simp [parts, Text.hexNumber_hexField hstart, Text.hexNumber_hexField hlength]
  | text r =>
    obtain ⟨hstart, -⟩ := h
    simp [parts, Text.hexNumber_hexField hstart, Function.comp_def]
  | finish address => simp [parts, Text.hexNumber_hexField h]

end Record

namespace SymbolTable

def renderSymbol (symbol : String × Int) : String := s!"{symbol.1}\t{Text.hexField 4 symbol.2}"

theorem render_eq (table : SymbolTable) : table.render = table.entries.map renderSymbol := rfl

theorem toList_renderSymbol (symbol : String × Int) :
    (renderSymbol symbol).toList =
      ['\t'].intercalate [symbol.1.toList, (Text.hexField 4 symbol.2).toList] := by
  simp [renderSymbol, toString, List.intercalate_cons_cons]

def readSymbol (line : String) : Option (String × Int) :=
  match Text.cutAt '\t' line.toList with
  | [label, address] => some (String.ofList label, Text.hexNumber address)
  | _ => none

/-- A symbol that a line can show: its address is not negative and its label holds no blank. -/
def Legible (symbol : String × Int) : Prop := Text.Solid symbol.1.toList ∧ 0 ≤ symbol.2

theorem Legible.solid {symbol : String × Int} (h : Legible symbol) :
    ∀ part ∈ [symbol.1.toList, (Text.hexField 4 symbol.2).toList], Text.Solid part := by
  simp only [List.forall_mem_cons]
  exact ⟨h.1, Text.solid_hexField h.2, List.forall_mem_nil _⟩

theorem readSymbol_renderSymbol {symbol : String × Int} (h : Legible symbol) :
    readSymbol (renderSymbol symbol) = some symbol := by
  unfold readSymbol
  rw [toList_renderSymbol, Text.cutAt_intercalate_of_solid rfl h.solid (List.cons_ne_nil _ _)]
  simp [Text.hexNumber_hexField h.2]

end SymbolTable

namespace Entry

theorem toList_render (e : Entry) :
    e.render.toList = ['\t'].intercalate
      ((Text.hexField 4 e.address).toList :: e.line.fieldList.map String.toList) := by
  simp [render, SourceLine.fields, SourceLine.fieldList, toString, List.intercalate_cons_cons]

theorem solid_parts {e : Entry} (h : 0 ≤ e.address) (hread : e.line.IsRead) :
    ∀ part ∈ (Text.hexField 4 e.address).toList :: e.line.fieldList.map String.toList,
      Text.Solid part := by
  rw [List.forall_mem_cons]
  refine ⟨Text.solid_hexField h, ?_⟩
  intro part hpart
  obtain ⟨field, hfield, rfl⟩ := List.mem_map.mp hpart
  exact Text.solid_of_fields (hread.fields_eq field hfield)

end Entry

namespace Layout

variable {table : OpcodeTable} {policy : Policy} {filename : String} {lines : List String}
  {l : Layout}

theorem solid_label (h : (ofLines table policy filename lines).result = .ok l) {e : Entry}
    (he : e ∈ l.rows) : Text.Solid e.line.label.toList :=
  Text.solid_of_fields ((isRead_of_mem_rows h he).fields_eq _ List.mem_cons_self)

/-- The name of a program is the label of its head, or empty. -/
theorem solid_name (h : (ofLines table policy filename lines).result = .ok l) :
    Text.Solid l.program.name.toList := by
  have hname : l.program.name = "" ∨ ∃ e ∈ l.rows, l.program.name = e.line.label := by
    obtain ⟨first, rest, -, ⟨-, start, -, hb⟩ | ⟨-, hb⟩⟩ := ofLines_cases h
    · obtain ⟨s, -, rfl⟩ := body_eq_ok hb
      by_cases hlabel : first.hasLabel = true
      · exact .inr ⟨⟨start, first⟩, List.mem_cons_self, if_pos hlabel⟩
      · exact .inl (if_neg hlabel)
    · obtain ⟨s, -, rfl⟩ := body_eq_ok hb
      exact .inl rfl
  rcases hname with hname | ⟨e, he, hname⟩
  · rw [hname]
    exact List.forall_mem_nil _
  · rw [hname]
    exact solid_label h he

/-- The symbols of a layout are labels of its entries, at their addresses. -/
theorem legible_symbols (h : (ofLines table policy filename lines).result = .ok l) :
    ∀ symbol ∈ l.symbols.entries, SymbolTable.Legible symbol := by
  intro symbol hsymbol
  have hlaid := ofLines_laid h
  have hnodup : l.symbols.keys.Nodup := by
    rw [ofLines_symbols h]
    exact Dictionary.nodup_keys_insertAll _ List.nodup_nil
  have hget := Dictionary.get?_of_mem_entries hnodup hsymbol
  have hdefined := hget
  rw [hlaid.symbols_get?] at hdefined
  obtain ⟨before, e, after, hentries, hdefines, -, -⟩ := lastDefined_eq_some.mp hdefined
  have hlabel : e.line.label = symbol.1 := by
    rw [Entry.defines_eq, Bool.and_eq_true, decide_eq_true_eq] at hdefines
    exact hdefines.2
  have hmem : e ∈ l.rows := by
    rw [rows, hentries]
    simp
  refine ⟨?_, hlaid.symbol_nonneg hget⟩
  rw [← hlabel]
  exact solid_label h hmem

end Layout

namespace ObjectProgram

variable {table : OpcodeTable} {undefinedSymbols : UndefinedSymbols} {l : Layout}
  {records : List Record}

theorem Packed.start_record_nonneg (h : Packed table undefinedSymbols l records) {g : List Piece}
    (hg : g ∈ l.groups table) : 0 ≤ (Piece.record g).start := by
  cases g with
  | nil => exact absurd rfl (h.group_ne_nil hg)
  | cons p g =>
    have hpiece := Layout.mem_pieces (Layout.mem_pieces_of_mem_group hg List.mem_cons_self)
    have hentry : p.entry ∈ l.entries :=
      (List.takeWhile_sublist _).mem (List.mem_of_getElem? hpiece.1)
    have haddress := (h.laid.chain.address_mem hentry).1
    have hstart := h.laid.start_nonneg
    change 0 ≤ p.entry.address + p.offset
    omega

theorem Packed.legible (h : Packed table undefinedSymbols l records)
    (hname : Text.Solid l.program.name.toList) : ∀ r ∈ records, r.Legible := by
  have hstart := h.laid.start_nonneg
  have hlength : 0 ≤ l.program.length := by
    have hle := h.laid.chain.le
    rw [h.laid.length_eq]
    omega
  rw [h.records_eq, List.forall_mem_cons, List.forall_mem_append, List.forall_mem_singleton]
  refine ⟨⟨hname, hstart, hlength⟩, ?_, hstart⟩
  intro r hr
  rw [List.map_map] at hr
  obtain ⟨g, hg, rfl⟩ := List.mem_map.mp hr
  refine ⟨h.start_record_nonneg hg, ?_⟩
  intro unit hunit
  have hbytes := (TextRecord.fault?_eq_none.mp (h.made g hg)).2.1 unit hunit
  exact Text.solid_of_isHexDigit (Text.isHexBytes_iff.mp hbytes).2

end ObjectProgram

namespace Assembly

variable {policy : Policy} {opcodes : OpcodeSource} {filename : String} {lines : List String}
  {a : Assembly}

/-- What lines can show of an assembly: its records, its symbols and its listing. -/
structure Legible (a : Assembly) : Prop where
  records : ∀ r ∈ a.records, r.Legible
  symbols : ∀ symbol ∈ a.layout.symbols.entries, SymbolTable.Legible symbol
  rows : ∀ e ∈ a.layout.rows, 0 ≤ e.address ∧ e.line.IsRead

theorem legible_of_ofLines (h : (ofLines policy opcodes filename lines).result = .ok a) :
    a.Legible := by
  obtain ⟨table, hload, -⟩ := Logged.result_bind_eq_ok.mp h
  rw [Logged.result_mapError_eq_ok] at hload
  have hlayout := (ofLines_eq_ok hload h).1
  have hpacked := packed_of_ofLines hload h
  refine ⟨hpacked.legible (Layout.solid_name hlayout), Layout.legible_symbols hlayout, ?_⟩
  intro e he
  exact ⟨Layout.address_nonneg_of_mem_rows hpacked.laid he, Layout.isRead_of_mem_rows hlayout he⟩

theorem Legible.read_objectCode (h : a.Legible) :
    a.objectCode.map Record.read = a.records.map some := by
  rw [objectCode, List.map_map]
  exact List.map_congr_left fun r hr => Record.read_render (h.records r hr)

theorem Legible.read_symbolTable (h : a.Legible) :
    a.symbolTable.map SymbolTable.readSymbol = a.layout.symbols.entries.map some := by
  rw [symbolTable, SymbolTable.render_eq, List.map_map]
  exact List.map_congr_left fun symbol hsymbol =>
    SymbolTable.readSymbol_renderSymbol (h.symbols symbol hsymbol)

/-- The lines of an artifact hold no line ends. -/
theorem Legible.isLineEnd (h : a.Legible) (artifact : Artifact) :
    ∀ line ∈ a.artifactLines artifact, ∀ c ∈ line.toList, Text.isLineEnd c = false := by
  intro line hline
  cases artifact with
  | object =>
    obtain ⟨r, hr, rfl⟩ := List.mem_map.mp hline
    rw [Record.toList_render]
    exact Text.isLineEnd_of_mem_intercalate rfl (h.records r hr).solid
  | listing =>
    obtain ⟨e, he, rfl⟩ := List.mem_map.mp hline
    obtain ⟨haddress, hread⟩ := h.rows e he
    rw [Entry.toList_render]
    exact Text.isLineEnd_of_mem_intercalate rfl (Entry.solid_parts haddress hread)
  | symbols =>
    obtain ⟨symbol, hsymbol, rfl⟩ := List.mem_map.mp hline
    change ∀ c ∈ (SymbolTable.renderSymbol symbol).toList, _
    rw [SymbolTable.toList_renderSymbol]
    exact Text.isLineEnd_of_mem_intercalate rfl (h.symbols symbol hsymbol).solid

/-- An artifact that is written to a writable path is read back from it. -/
theorem Legible.write (h : a.Legible) {d : Disk} {path : String} {p : Place}
    (hpath : d.writable path = .ok p) (hread : p ∉ d.unreadable) (artifact : Artifact) :
    (a.write d artifact path).refusal = none ∧
      (a.write d artifact path).state.lines path = .ok (a.artifactLines artifact) := by
  obtain ⟨after, hwrite, hlines⟩ := Disk.writeLines_of_writable hpath hread (h.isLineEnd artifact)
  rw [Assembly.write, hwrite]
  exact ⟨rfl, hlines⟩

end Assembly

/-- The object code of an assembly determines its records, and the lines of its symbol table
determine its symbols. The object code, the listing and the symbol table are read back from the
files that they are written to. -/
theorem artifacts_are_decodable {policy policy' : Policy} {opcodes opcodes' : OpcodeSource}
    {filename filename' : String} {lines lines' : List String} {a b : Assembly}
    (ha : (Assembly.ofLines policy opcodes filename lines).result = .ok a)
    (hb : (Assembly.ofLines policy' opcodes' filename' lines').result = .ok b) :
    (a.objectCode = b.objectCode → a.records = b.records) ∧
    (a.symbolTable = b.symbolTable → a.layout.symbols = b.layout.symbols) ∧
    ∀ (d : Disk) (path : String) (p : Place), d.writable path = .ok p → p ∉ d.unreadable →
      ((a.write d .object path).refusal = none ∧
        (a.write d .object path).state.lines path = .ok a.objectCode) ∧
      ((a.write d .listing path).refusal = none ∧
        (a.write d .listing path).state.lines path = .ok a.listing) ∧
      (a.write d .symbols path).refusal = none ∧
        (a.write d .symbols path).state.lines path = .ok a.symbolTable := by
  have hsome {α : Type} {xs ys : List α} (h : xs.map some = ys.map some) : xs = ys :=
    (List.map_inj_right fun _ _ => Option.some.inj).mp h
  have hlegible := Assembly.legible_of_ofLines ha
  have hlegible' := Assembly.legible_of_ofLines hb
  refine ⟨?_, ?_, ?_⟩
  · intro hcode
    apply hsome
    rw [← hlegible.read_objectCode, ← hlegible'.read_objectCode, hcode]
  · intro hsymbols
    have hentries : a.layout.symbols.entries = b.layout.symbols.entries := by
      apply hsome
      rw [← hlegible.read_symbolTable, ← hlegible'.read_symbolTable, hsymbols]
    exact congrArg Dictionary.mk hentries
  · intro d path p hpath hread
    have hwrite := hlegible.write hpath hread
    exact ⟨hwrite .object, hwrite .listing, hwrite .symbols⟩

/-- A program with the mark of record fields in its name, and the same with a comment. -/
def markedProgram : List String := ["A^B START 1000", "X LDA Y", "Y BYTE X'F10A'", "- END X"]

def remarkedProgram : List String :=
  [". note", "A^B\tSTART\t01000", "X  LDA  Y", "Y BYTE X'f10a'", "- END Y"]

def outDisk : Disk := Disk.empty.addDirectory "out"

theorem artifacts_of_marked_program :
    ∃ a b, (Assembly.ofLines {} .standard "<input>" markedProgram).result = .ok a ∧
      (Assembly.ofLines ⟨.strict, .reject⟩ .standard "b.asm" remarkedProgram).result = .ok b ∧
      a.objectCode = ["H^ A^B^ 001000^ 000007", "T^ 001000^ 001003^ F10A^ ", "E^ 001000"] ∧
      a.objectCode = b.objectCode ∧ a.symbolTable = b.symbolTable ∧
      a.records = b.records ∧ a.layout.symbols = b.layout.symbols ∧
      outDisk.writable "out//./p.obj" = .ok ⟨["work", "out", "p.obj"]⟩ ∧
      (a.write outDisk .object "out//./p.obj").state.lines "out//./p.obj" = .ok a.objectCode ∧
      (a.write outDisk .listing "out//./p.obj").state.lines "out//./p.obj" = .ok a.listing ∧
      (a.write outDisk .symbols "out//./p.obj").state.lines "out//./p.obj" = .ok a.symbolTable := by
  have hrun : ∃ a, (Assembly.ofLines {} .standard "<input>" markedProgram).result = .ok a ∧
      decide (a.objectCode = ["H^ A^B^ 001000^ 000007", "T^ 001000^ 001003^ F10A^ ", "E^ 001000"] ∧
        a.symbolTable = ["X\t1000", "Y\t1003"]) = true :=
    Logged.exists_of_any (by decide +kernel)
  have hrun' : ∃ b,
      (Assembly.ofLines ⟨.strict, .reject⟩ .standard "b.asm" remarkedProgram).result = .ok b ∧
      decide (b.objectCode = ["H^ A^B^ 001000^ 000007", "T^ 001000^ 001003^ F10A^ ", "E^ 001000"] ∧
        b.symbolTable = ["X\t1000", "Y\t1003"]) = true :=
    Logged.exists_of_any (by decide +kernel)
  obtain ⟨a, ha, hlines⟩ := hrun
  obtain ⟨b, hb, hlines'⟩ := hrun'
  obtain ⟨hcode, hsymbols⟩ := of_decide_eq_true hlines
  obtain ⟨hcode', hsymbols'⟩ := of_decide_eq_true hlines'
  have hpath : outDisk.writable "out//./p.obj" = .ok ⟨["work", "out", "p.obj"]⟩ := by
    decide +kernel
  obtain ⟨hrecords, htables, hfiles⟩ := artifacts_are_decodable ha hb
  obtain ⟨⟨-, hobject⟩, ⟨-, hlisting⟩, -, hsymbolFile⟩ := hfiles _ _ _ hpath List.not_mem_nil
  have hsame := hcode.trans hcode'.symm
  have hsame' := hsymbols.trans hsymbols'.symm
  exact ⟨a, b, ha, hb, hcode, hsame, hsame', hrecords hsame, htables hsame', hpath, hobject,
    hlisting, hsymbolFile⟩

end SicAssembler
