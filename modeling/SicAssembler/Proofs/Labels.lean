import SicAssembler.Proofs.Listing

/-!
# The symbol table of a listing

The symbol table of a program holds the labels of its statements: a name stands where it was first
defined and has the address of the last statement that defines it. In general a table keeps the
order of first definition under any requests; the policy decides whether the first or the last
address is kept.
-/

namespace SicAssembler

namespace Layout

variable {table : OpcodeTable} {policy : Policy} {filename : String} {lines : List String}
  {l : Layout} {name : String}

def labels (entries : List Entry) : List String :=
  (entries.filter Entry.isLabelled).map (·.line.label)

theorem map_fst_definitions (entries : List Entry) :
    (definitions entries).map Prod.fst = labels entries := by
  rw [definitions, List.map_map, labels]
  rfl

theorem ofLines_symbols (h : (ofLines table policy filename lines).result = .ok l) :
    l.symbols = Dictionary.empty.insertAll (definitions l.entries) := by
  obtain ⟨first, rest, -, ⟨-, start, -, hb⟩ | ⟨-, hb⟩⟩ := ofLines_cases h
  · obtain ⟨s, hs, rfl⟩ := body_eq_ok hb
    exact scan_symbols hs
  · obtain ⟨s, hs, rfl⟩ := body_eq_ok hb
    exact scan_symbols hs

theorem lastDefined_eq_some {entries : List Entry} {a : Int} :
    lastDefined name entries = some a ↔
      ∃ before e after, entries = before ++ e :: after ∧ e.defines name = true ∧
        (∀ f ∈ after, f.defines name = false) ∧ e.address = a := by
  rw [lastDefined, List.getLast?_filter, Option.map_eq_some_iff]
  constructor
  · rintro ⟨e, he, rfl⟩
    obtain ⟨hdefines, after, before, hreverse, hafter⟩ := List.find?_eq_some_iff_append.mp he
    refine ⟨before.reverse, e, after.reverse, ?_, hdefines, ?_, rfl⟩
    · rw [← List.reverse_reverse entries, hreverse]
      simp
    · intro f hf
      simpa using hafter f (List.mem_reverse.mp hf)
  · rintro ⟨before, e, after, rfl, hdefines, hafter, rfl⟩
    refine ⟨e, List.find?_eq_some_iff_append.mpr ⟨hdefines, after.reverse, before.reverse, ?_, ?_⟩,
      rfl⟩
    · simp
    · intro f hf
      simpa using hafter f (List.mem_reverse.mp hf)

namespace Chain

variable {a z : Int} {entries before after : List Entry} {e : Entry}

theorem of_append :
    ∀ {a : Int}, Chain table a (before ++ e :: after) z → Chain table e.address (e :: after) z := by
  induction before with
  | nil =>
    intro a h
    rw [List.nil_append] at h
    obtain rfl := h.head_address rfl
    exact h
  | cons f before ih =>
    intro a h
    cases hrest : before ++ e :: after with
    | nil => simp at hrest
    | cons g rest =>
      rw [List.cons_append, hrest] at h
      cases h with
      | next hm hs tail => exact ih (hrest ▸ tail)

theorem start_eq_iff (h : Chain table a entries z) :
    a = z ↔ ∀ f ∈ entries, f.line.mnemonic ≠ "END" → f.line.size table = .ok 0 := by
  induction h with
  | stop a => simp
  | finish a hm => simp [hm]
  | @next a z line n rest hm hs tail ih =>
    have hle := tail.le
    rw [List.forall_mem_cons]
    constructor
    · intro haz
      obtain rfl : n = 0 := by omega
      exact ⟨fun _ => hs, ih.mp (by omega)⟩
    · rintro ⟨hfirst, hrest⟩
      have hzero := hfirst hm
      rw [hs, Except.ok.injEq] at hzero
      have htail := ih.mpr hrest
      omega

end Chain

/-- What the symbol table of a layout has to do with its listing. -/
structure SymbolsOfListing (table : OpcodeTable) (l : Layout) : Prop where
  /-- The names are the labels of the statements other than the last one that ends the program. -/
  contains_iff : ∀ name, l.symbols.contains name = true ↔
    ∃ e ∈ l.entries, e.line.mnemonic ≠ "END" ∧ e.line.label = name ∧ name ≠ SourceLine.absent
  /-- The statements at the head and at the end enter no label. -/
  start_or_end : ∀ e, l.startEntry = some e ∨ l.endEntry = some e →
    (∀ f ∈ l.entries, f.defines e.line.label = false) → l.symbols.get? e.line.label = none
  /-- The address of a name is that of the last statement that defines it. -/
  get?_eq_some : ∀ name a, l.symbols.get? name = some a ↔
    ∃ before e after, l.entries = before ++ e :: after ∧ e.defines name = true ∧
      (∀ f ∈ after, f.defines name = false) ∧ e.address = a
  /-- The names stand in the order of their first definition. -/
  keys_eq : l.symbols.keys = (labels l.entries).eraseDups
  nodup : l.symbols.keys.Nodup
  render : List.Forall₂
    (fun name text => ∃ a, l.symbols.get? name = some a ∧ text = s!"{name}\t{Text.hexField 4 a}")
    l.symbols.keys l.symbols.render
  /-- A name lies inside the program, and at its end if no statement from there on takes space. -/
  bounds : ∀ name before e after, l.entries = before ++ e :: after → e.defines name = true →
    (∀ f ∈ after, f.defines name = false) →
      l.program.start ≤ e.address ∧ e.address ≤ l.endAddress ∧
      (e.address = l.endAddress ↔
        ∀ f ∈ e :: after, f.line.mnemonic ≠ "END" → f.line.size table = .ok 0)

theorem exists_defines_iff {entries : List Entry} :
    (∃ e ∈ entries, e.defines name = true) ↔
      ∃ e ∈ entries, e.line.mnemonic ≠ "END" ∧ e.line.label = name ∧ name ≠ SourceLine.absent := by
  apply exists_congr
  intro e
  simp only [Entry.defines, SourceLine.hasLabel, Bool.and_eq_true, bne_iff_ne, decide_eq_true_eq]
  constructor
  · rintro ⟨he, ⟨habsent, rfl⟩, hm⟩
    exact ⟨he, hm, rfl, habsent⟩
  · rintro ⟨he, hm, rfl, habsent⟩
    exact ⟨he, ⟨habsent, rfl⟩, hm⟩

theorem render_of_nodup {symbols : SymbolTable} (h : symbols.keys.Nodup) :
    List.Forall₂ (fun name text =>
        ∃ a, symbols.get? name = some a ∧ text = s!"{name}\t{Text.hexField 4 a}")
      symbols.keys symbols.render := by
  rw [Dictionary.keys, SymbolTable.render, List.forall₂_map_left_iff, List.forall₂_map_right_iff,
    List.forall₂_same]
  rintro ⟨name, a⟩ hm
  exact ⟨a, Dictionary.get?_of_mem_entries h hm, rfl⟩

theorem symbolsOfListing (h : (ofLines table policy filename lines).result = .ok l) :
    SymbolsOfListing table l := by
  have hlaid := ofLines_laid h
  have hsymbols := ofLines_symbols h
  have hget : ∀ name a, l.symbols.get? name = some a ↔
      ∃ before e after, l.entries = before ++ e :: after ∧ e.defines name = true ∧
        (∀ f ∈ after, f.defines name = false) ∧ e.address = a := by
    intro name a
    rw [hlaid.symbols_get?]
    exact lastDefined_eq_some
  have hkeys : l.symbols.keys = (labels l.entries).eraseDups := by
    rw [hsymbols, Dictionary.keys_insertAll_empty, map_fst_definitions]
  have hnodup : l.symbols.keys.Nodup := by
    rw [hsymbols]
    exact Dictionary.nodup_keys_insertAll _ List.nodup_nil
  refine ⟨?_, ?_, hget, hkeys, hnodup, render_of_nodup hnodup, ?_⟩
  · intro name
    rw [Dictionary.contains_iff_mem_keys, hkeys, List.mem_eraseDups, ← exists_defines_iff, labels,
      List.mem_map]
    simp only [List.mem_filter, Entry.defines_eq, Bool.and_eq_true, decide_eq_true_eq, and_assoc]
  · intro e _ hnone
    rw [hlaid.symbols_get?, lastDefined, List.filter_eq_nil_iff.mpr]
    · rfl
    · intro f hf
      rw [hnone f hf]
      exact Bool.false_ne_true
  · intro name before e after hsplit _ _
    have hmem : e ∈ l.entries := by
      rw [hsplit]
      exact List.mem_append_right before List.mem_cons_self
    have hrest : Chain table e.address (e :: after) l.endAddress :=
      .of_append (hsplit ▸ hlaid.chain)
    obtain ⟨hstart, hend⟩ := hlaid.chain.address_mem hmem
    exact ⟨hstart, hend, hrest.start_eq_iff⟩

end Layout

namespace SymbolTable

/-- A label that is to be entered at an address, on behalf of a line or of none. -/
structure Definition where
  label : String
  address : Int
  line : Option SourceLine
  deriving DecidableEq, Repr

def enter (duplicates : DuplicateLabels) (table : SymbolTable) (d : Definition) :
    Step SymbolTable Diagnostic :=
  table.define duplicates d.label d.address d.line

/-- The table that definitions leave behind, one after another, whether they are refused or not. -/
def afterAll (duplicates : DuplicateLabels) (ds : List Definition) : SymbolTable :=
  ds.foldl (fun table d => (table.enter duplicates d).state) .empty

@[simp] theorem afterAll_concat (duplicates : DuplicateLabels) (ds : List Definition)
    (d : Definition) :
    afterAll duplicates (ds ++ [d]) = ((afterAll duplicates ds).enter duplicates d).state := by
  simp [afterAll]

theorem enter_overwrite (table : SymbolTable) (d : Definition) :
    (table.enter .overwrite d).refusal = none ∧
      (table.enter .overwrite d).state = table.insert d.label d.address := by
  cases h : table.get? d.label with
  | some a => simp [enter, define, h]
  | none => simp [enter, define, h]

theorem enter_reject_of_some {table : SymbolTable} {d : Definition} {a : Int}
    (h : table.get? d.label = some a) :
    table.enter .reject d = .refused table (duplicate d.label a d.line) := by
  simp [enter, define, h]

theorem enter_reject_of_none {table : SymbolTable} {d : Definition}
    (h : table.get? d.label = none) :
    (table.enter .reject d).refusal = none ∧
      (table.enter .reject d).state = table.insert d.label d.address := by
  simp [enter, define, h]

/-- Under both policies a name that is new comes last, and another keeps its place. -/
theorem keys_enter (duplicates : DuplicateLabels) (table : SymbolTable) (d : Definition) :
    (table.enter duplicates d).state.keys =
      if d.label ∈ table.keys then table.keys else table.keys ++ [d.label] := by
  cases duplicates with
  | overwrite => rw [(enter_overwrite table d).2, Dictionary.keys_insert]
  | reject =>
    cases h : table.get? d.label with
    | some a =>
      have hmem : d.label ∈ table.keys :=
        Dictionary.contains_iff_mem_keys.mp (by simp [Dictionary.contains, h])
      rw [enter_reject_of_some h, if_pos hmem]
      rfl
    | none => rw [(enter_reject_of_none h).2, Dictionary.keys_insert]

theorem keys_afterAll (duplicates : DuplicateLabels) (ds : List Definition) :
    (afterAll duplicates ds).keys = (ds.map Definition.label).eraseDups := by
  induction ds using List.reverseRecOn with
  | nil => rfl
  | append_singleton ds d ih =>
    rw [afterAll_concat, keys_enter, ih, List.map_append, List.map_singleton,
      Dictionary.eraseDups_concat]
    simp only [List.mem_eraseDups]

theorem get?_afterAll_eq_none (duplicates : DuplicateLabels) {ds : List Definition}
    {name : String} :
    (afterAll duplicates ds).get? name = none ↔ name ∉ ds.map Definition.label := by
  rw [← List.mem_eraseDups, ← keys_afterAll duplicates, ← Dictionary.contains_iff_mem_keys,
    Dictionary.contains]
  simp

/-- Where labels may be defined again, a name has the address of its last definition. -/
theorem get?_afterAll_overwrite (ds : List Definition) (name : String) :
    (afterAll .overwrite ds).get? name =
      (ds.filter (·.label = name)).getLast?.map Definition.address := by
  induction ds using List.reverseRecOn with
  | nil => rfl
  | append_singleton ds d ih =>
    rw [afterAll_concat, (enter_overwrite _ d).2, Dictionary.get?_insert, ih, List.filter_append]
    by_cases h : d.label = name
    · simp [h]
    · simp [h]

/-- Where labels may not be defined again, a name has the address of its first definition. -/
theorem get?_afterAll_reject (ds : List Definition) (name : String) :
    (afterAll .reject ds).get? name = (ds.find? (·.label = name)).map Definition.address := by
  induction ds using List.reverseRecOn with
  | nil => rfl
  | append_singleton ds d ih =>
    rw [afterAll_concat, List.find?_append, Option.map_or, ← ih]
    cases hd : (afterAll .reject ds).get? d.label with
    | some a =>
      rw [enter_reject_of_some hd]
      by_cases h : d.label = name
      · subst h
        simp [Step.refused, hd]
      · simp [Step.refused, h]
    | none =>
      rw [(enter_reject_of_none hd).2, Dictionary.get?_insert]
      by_cases h : d.label = name
      · subst h
        simp [hd]
      · simp [h]

theorem state_of_refused {table : SymbolTable} {d : Definition}
    (h : (table.enter .reject d).refusal ≠ none) : (table.enter .reject d).state = table := by
  cases hd : table.get? d.label with
  | some a =>
    rw [enter_reject_of_some hd]
    rfl
  | none => exact absurd (enter_reject_of_none hd).1 h

theorem refusal_enter_reject (ds : List Definition) (d : Definition) :
    ((afterAll .reject ds).enter .reject d).refusal = none ↔ d.label ∉ ds.map Definition.label := by
  rw [← get?_afterAll_eq_none .reject]
  cases hd : (afterAll .reject ds).get? d.label with
  | some a => simp [enter_reject_of_some hd, Step.refused]
  | none => simp [(enter_reject_of_none hd).1]

end SymbolTable

open SymbolTable

/-- The symbol table of a program is that of the labels in its listing. For definitions in general,
names stand in the order of their first definition. A definition is refused only where labels may
not be defined again, and then it leaves the table as it was. -/
theorem symbols_are_labels_in_first_order :
    (∀ {table : OpcodeTable} {policy : Policy} {filename : String} {lines : List String}
        {l : Layout}, (Layout.ofLines table policy filename lines).result = .ok l →
      l.SymbolsOfListing table) ∧
    (∀ duplicates ds, (afterAll duplicates ds).keys = (ds.map Definition.label).eraseDups) ∧
    (∀ ds name, (afterAll .overwrite ds).get? name =
      (ds.filter (·.label = name)).getLast?.map Definition.address) ∧
    (∀ ds name, (afterAll .reject ds).get? name =
      (ds.find? (·.label = name)).map Definition.address) ∧
    (∀ (table : SymbolTable) d, (table.enter .overwrite d).refusal = none) ∧
    (∀ ds d, ((afterAll .reject ds).enter .reject d).refusal = none ↔
      d.label ∉ ds.map Definition.label) ∧
    ∀ (table : SymbolTable) d, (table.enter .reject d).refusal ≠ none →
      (table.enter .reject d).state = table :=
  ⟨Layout.symbolsOfListing, keys_afterAll, get?_afterAll_overwrite, get?_afterAll_reject,
    fun table d => (enter_overwrite table d).1, refusal_enter_reject, fun _ _ => state_of_refused⟩

/-- A label that is defined again where nothing takes space any more, and one that stands only at
the head and at the end. -/
def redefinedAtEnd : List String :=
  ["P START 1000", "A WORD 1", "B RESB 0", "A BYTE C''", "- FOO B", "P END A"]

theorem symbols_of_redefined_at_end :
    ∃ l, (Layout.ofLines .standard {} "<input>" redefinedAtEnd).result = .ok l ∧
      l.SymbolsOfListing .standard ∧ l.symbols.render = ["A\t1003", "B\t1003"] ∧
      l.symbols.get? "P" = none ∧ l.endAddress = 0x1003 := by
  have hrun : ∃ l, (Layout.ofLines .standard {} "<input>" redefinedAtEnd).result = .ok l ∧
      decide (l.symbols.render = ["A\t1003", "B\t1003"] ∧ l.symbols.get? "P" = none ∧
        l.endAddress = 0x1003) = true :=
    Logged.exists_of_any (by decide +kernel)
  obtain ⟨l, hl, hfacts⟩ := hrun
  exact ⟨l, hl, symbols_are_labels_in_first_order.1 hl, of_decide_eq_true hfacts⟩

end SicAssembler
