import SicAssembler.Proofs.Provenance
import SicAssembler.Proofs.Spacing

/-!
# A listing is a source of its program

A listing shows each statement with its address in front. Without the addresses its lines have the
fields of the source up to the end of the program, so they are assembled to the same artifacts.
-/

namespace SicAssembler

/-- A line of a listing without the address: what follows its first tab. -/
def afterTab (row : String) : String := String.ofList ((row.toList.dropWhile (· ≠ '\t')).drop 1)

namespace SourceLine

def fieldList (l : SourceLine) : List String := [l.label, l.mnemonic, l.operand]

/-- A statement that was read from a line that is no comment. -/
def IsRead (l : SourceLine) : Prop :=
  ∃ text, isComment text = false ∧ Text.fields text = l.fieldList

theorem throughEnd_append {rows after : List (List String)}
    (hend : ∀ fields ∈ rows.dropLast, endsProgram fields = false)
    (hafter : after = [] ∨ ∃ fields, rows.getLast? = some fields ∧ endsProgram fields = true) :
    throughEnd (rows ++ after) = rows := by
  induction rows with
  | nil =>
    rcases hafter with rfl | ⟨fields, hlast, -⟩
    · rfl
    · cases hlast
  | cons row rows ih =>
    cases rows with
    | nil =>
      rcases hafter with rfl | ⟨fields, hlast, hends⟩
      · rw [List.append_nil, throughEnd]
        split
        · rfl
        · rfl
      · obtain rfl : row = fields := Option.some.inj hlast
        rw [List.cons_append, throughEnd, if_pos hends]
    | cons next rows =>
      rw [List.dropLast_cons_cons, List.forall_mem_cons] at hend
      rw [List.getLast?_cons_cons] at hafter
      rw [List.cons_append, throughEnd, if_neg (by simp [hend.1]), ih hend.2 hafter]

theorem map_fields_of_parse {filename : String} {xs : List (String × Nat)} :
    ∀ {entries : List Entry},
      xs.map (fun x => parse x.1 x.2 filename) = entries.map (fun e => .ok e.line) →
      xs.map (fun x => Text.fields x.1) = entries.map fun e => e.line.fieldList := by
  induction xs with
  | nil =>
    intro entries h
    rw [List.map_nil, eq_comm, List.map_eq_nil_iff] at h
    rw [h, List.map_nil, List.map_nil]
  | cons x xs ih =>
    intro entries h
    cases entries with
    | nil => cases h
    | cons e entries =>
      rw [List.map_cons, List.map_cons, List.cons.injEq] at h
      rw [List.map_cons, List.map_cons, ih h.2, (parse_eq_ok.mp h.1).1, fieldList]

theorem IsRead.fields_eq {l : SourceLine} (h : l.IsRead) :
    ∀ field ∈ l.fieldList, Text.fields field = [field] := by
  obtain ⟨text, -, hfields⟩ := h
  rw [← hfields]
  exact fun _ => Text.fields_of_mem_fields

end SourceLine

namespace Entry

open SourceLine

theorem afterTab_render {e : Entry} (h : 0 ≤ e.address) :
    afterTab e.render = String.ofList (e.line.label.toList ++ '\t' ::
      (e.line.mnemonic.toList ++ '\t' :: e.line.operand.toList)) := by
  have hdigits : ∀ c ∈ (Text.hexField 4 e.address).toList, decide (c ≠ '\t') = true := by
    intro c hc
    have hhex := Text.isHexDigit_of_mem_hexField h c hc
    rw [decide_eq_true_eq]
    rintro rfl
    exact absurd hhex (by decide)
  have hrow : e.render.toList = (Text.hexField 4 e.address).toList ++ '\t' ::
      (e.line.label.toList ++ '\t' ::
        (e.line.mnemonic.toList ++ '\t' :: e.line.operand.toList)) := by
    simp [render, SourceLine.fields, toString]
  rw [afterTab, hrow, List.dropWhile_append_of_pos hdigits]
  rfl

theorem fields_afterTab_render {e : Entry} (h : 0 ≤ e.address) (hread : e.line.IsRead) :
    Text.fields (afterTab e.render) = e.line.fieldList := by
  have hfields := hread.fields_eq
  simp only [fieldList, List.forall_mem_cons] at hfields
  obtain ⟨hlabel, hmnemonic, hoperand, -⟩ := hfields
  rw [afterTab_render h, Text.fields_append_blank hlabel rfl,
    Text.fields_append_blank hmnemonic rfl, String.ofList_toList, hoperand, fieldList]

theorem isComment_afterTab_render {e : Entry} (h : 0 ≤ e.address) (hread : e.line.IsRead) :
    isComment (afterTab e.render) = false := by
  obtain ⟨text, hcomment, hfields⟩ := hread
  rw [← hcomment]
  apply isComment_congr
  rw [fields_afterTab_render h ⟨text, hcomment, hfields⟩, hfields]

end Entry

namespace Layout

open SourceLine

variable {table : OpcodeTable} {policy : Policy} {filename : String} {lines : List String}
  {l : Layout}

/-- The entries of a listing, with the head of the program first. -/
def rows (l : Layout) : List Entry := l.startEntry.toList ++ l.entries

def rowFields (l : Layout) : List (List String) := l.rows.map fun e => e.line.fieldList

theorem endsProgram_of_mem_dropLast (h : (ofLines table policy filename lines).result = .ok l) :
    ∀ fields ∈ l.rowFields.dropLast, endsProgram fields = false := by
  intro fields hfields
  rw [rowFields, ← List.map_dropLast] at hfields
  obtain ⟨e, he, rfl⟩ := List.mem_map.mp hfields
  apply decide_eq_false
  rw [rows, List.dropLast_append] at he
  split at he
  · cases hs : l.startEntry <;> simp [hs] at he
  · rcases List.mem_append.mp he with he | he
    · obtain ⟨first, -, ⟨hm, hstart, -⟩ | ⟨-, hnone, -⟩⟩ := ofLines_head h
      · rw [hstart, Option.toList_some, List.mem_singleton] at he
        rw [he, hm]
        decide
      · rw [hnone] at he
        cases he
    · exact (ofLines_laid h).chain.end_of_mem_dropLast he

theorem programFields_eq_rows (h : (ofLines table policy filename lines).result = .ok l) :
    programFields lines = l.rowFields := by
  obtain ⟨after, hparsed, hafter⟩ := ofLines_statements h
  rw [programFields_eq]
  rw [parsed] at hparsed
  obtain ⟨xs, ys, hsplit, hxs, hys⟩ := List.map_eq_append_iff.mp hparsed
  rw [hsplit, List.map_append, map_fields_of_parse hxs]
  apply throughEnd_append (endsProgram_of_mem_dropLast h)
  · rcases hafter with rfl | ⟨e, hlast, hm⟩
    · exact .inl (by rw [List.map_eq_nil_iff.mp hys, List.map_nil])
    · refine .inr ⟨e.line.fieldList, ?_, decide_eq_true hm⟩
      rw [rowFields, List.getLast?_map, rows, List.getLast?_append, hlast]
      rfl

theorem isRead_of_mem_rows (h : (ofLines table policy filename lines).result = .ok l) {e : Entry}
    (he : e ∈ l.rows) : e.line.IsRead := by
  obtain ⟨after, hparsed, -⟩ := ofLines_statements h
  have hmem : .ok e.line ∈ parsed filename lines := by
    rw [hparsed]
    exact List.mem_append_left _ (List.mem_map.mpr ⟨e, he, rfl⟩)
  obtain ⟨⟨text, n⟩, htext, hline⟩ := List.mem_map.mp hmem
  have hcomment : isComment text = false := by simpa using (List.mem_filter.mp htext).2
  exact ⟨text, hcomment, (parse_eq_ok.mp hline).1⟩

theorem address_nonneg_of_mem_rows (h : Laid table l) {e : Entry} (he : e ∈ l.rows) :
    0 ≤ e.address := by
  have hstart := h.start_nonneg
  rcases List.mem_append.mp he with he | he
  · rcases h.head with ⟨hnone, -, -⟩ | ⟨line, hsome⟩
    · rw [hnone] at he
      cases he
    · rw [hsome, Option.toList_some, List.mem_singleton] at he
      rw [he]
      exact hstart
  · exact Int.le_trans hstart (h.chain.address_mem he).1

/-- The listing without its addresses has the fields of the source. -/
theorem programFields_listing (h : (ofLines table policy filename lines).result = .ok l) :
    programFields (l.listing.map afterTab) = programFields lines := by
  have haddress := fun {e} he => address_nonneg_of_mem_rows (ofLines_laid h) (e := e) he
  have hcomments : (l.listing.map afterTab).filter (!isComment ·) = l.listing.map afterTab := by
    rw [List.filter_eq_self]
    intro text htext
    obtain ⟨row, hrow, rfl⟩ := List.mem_map.mp htext
    obtain ⟨e, he, rfl⟩ := List.mem_map.mp hrow
    rw [Entry.isComment_afterTab_render (haddress he) (isRead_of_mem_rows h he)]
    rfl
  have hfields : (l.listing.map afterTab).map Text.fields = l.rowFields := by
    rw [List.map_map, listing, List.map_map, rowFields]
    apply List.map_congr_left
    intro e he
    rw [Function.comp_apply, Function.comp_apply]
    exact Entry.fields_afterTab_render (haddress he) (isRead_of_mem_rows h he)
  have hend : throughEnd (l.rowFields ++ []) = l.rowFields :=
    throughEnd_append (endsProgram_of_mem_dropLast h) (.inl rfl)
  rw [List.append_nil] at hend
  rw [programFields, hcomments, hfields, hend, programFields_eq_rows h]

end Layout

open SourceLine

/-- Whatever is wrong with one statement, something is wrong with another of the same fields. -/
theorem rewording_sameFields (filename filename' : String) :
    Rewording filename filename' SameFields fun _ _ => True where
  label_eq h := h.label_eq
  mnemonic_eq h := h.mnemonic_eq
  operand_eq h := h.operand_eq
  operandFault _ _ := trivial
  duplicate _ _ _ := trivial
  overflow _ := trivial
  emptySource := trivial

/-- A listing without its addresses is assembled to the artifacts that it belongs to. -/
theorem listing_reassembles {policy : Policy} {opcodes : OpcodeSource} {filename : String}
    {lines : List String} {a : Assembly}
    (h : (Assembly.ofLines policy opcodes filename lines).result = .ok a) (filename' : String) :
    ∃ b, (Assembly.ofLines policy opcodes filename' (a.listing.map afterTab)).result = .ok b ∧
      a.SameArtifacts b := by
  obtain ⟨table, hload, htable⟩ := Logged.result_bind_eq_ok.mp h
  have hlayout := (Assembly.ofLines_eq_ok (Logged.result_mapError_eq_ok.mp hload) h).1
  have hstatements : SamePrograms SameFields (fun _ _ => True) (statements filename lines)
      (statements filename' (a.listing.map afterTab)) := by
    apply samePrograms_of_programFields _ (Layout.programFields_listing hlayout).symm
    intro s t m n hfields
    exact parse_alike hfields (fun _ _ _ => ⟨rfl, rfl, rfl⟩) fun _ => trivial
  have hsame := (rewording_sameFields filename filename').ofTable hstatements policy table
  rw [htable] at hsame
  generalize hb : (Assembly.ofTable policy table filename' (a.listing.map afterTab)).result =
    outcome at hsame
  cases hsame with
  | @ok _ b hab =>
    exact ⟨b, Logged.result_bind_eq_ok.mpr ⟨table, hload, hb⟩, hab.sameArtifacts fun _ _ => id⟩

theorem listing_of_commented_program_reassembles :
    ∃ a b, (Assembly.ofLines {} .standard "<input>" commentedProgram).result = .ok a ∧
      a.listing.map afterTab = ["P\tSTART\t1000", "A\tLDA\tB", "B\tRESW\t2", "-\tFOO\tX",
        "C\tBYTE\tX'F1'", "-\tEND\tA"] ∧
      (Assembly.ofLines {} .standard "<listing>" (a.listing.map afterTab)).result = .ok b ∧
      a.SameArtifacts b := by
  have hrun : ∃ a, (Assembly.ofLines {} .standard "<input>" commentedProgram).result = .ok a ∧
      decide (a.listing.map afterTab = ["P\tSTART\t1000", "A\tLDA\tB", "B\tRESW\t2",
        "-\tFOO\tX", "C\tBYTE\tX'F1'", "-\tEND\tA"]) = true :=
    Logged.exists_of_any (by decide +kernel)
  obtain ⟨a, ha, hlisting⟩ := hrun
  obtain ⟨b, hb, hab⟩ := listing_reassembles ha "<listing>"
  exact ⟨a, b, ha, of_decide_eq_true hlisting, hb, hab⟩

end SicAssembler
