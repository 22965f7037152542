import SicAssembler.Proofs.Conservation
import SicAssembler.Proofs.Fields
import SicAssembler.Proofs.Listing
import Mathlib.Data.List.Forall2

/-!
# Moving a program

The operand of the `START` statement says where a program starts. Another start moves every address
by the same distance: those of the listing, the labels and the records, and in the code those that
instructions hold. Nothing else changes, and the records are cut at the same units.
-/

namespace SicAssembler

def Entry.move (d : Int) (e : Entry) : Entry := ⟨e.address + d, e.line⟩

/-- Two sources that differ only in the operand of the `START` statement that is their first line
but for comments: it denotes `s` in one and `s + d` in the other. -/
inductive MovedStart (s d : Int) : List String → List String → Prop where
  | intro {before after : List String} {head head' label operand operand' : String}
      (hbefore : ∀ text ∈ before, SourceLine.isComment text = true)
      (hhead : SourceLine.isComment head = false)
      (hfields : Text.fields head = [label, "START", operand])
      (hfields' : Text.fields head' = [label, "START", operand'])
      (hstart : Text.hexadecimal? operand = some s)
      (hstart' : Text.hexadecimal? operand' = some (s + d)) :
      MovedStart s d (before ++ head :: after) (before ++ head' :: after)

namespace SourceLine

theorem statements_of_comments {filename head : String} {before after : List String}
    (hbefore : ∀ text ∈ before, isComment text = true) (hhead : isComment head = false) :
    statements filename (before ++ head :: after) =
      parse head (before.length + 1 : Nat) filename ::
        statementsFrom filename (before.length + 2) after := by
  rw [statements, statementsFrom_append, statementsFrom_of_comments hbefore, List.nil_append,
    statementsFrom, if_neg (by simp [hhead]), Nat.add_comm 1]

theorem startAddress_of_hexadecimal {l : SourceLine} {s start : Int}
    (hs : Text.hexadecimal? l.operand = some s) (h : l.startAddress = .ok start) : start = s := by
  unfold startAddress at h
  rw [hs] at h
  dsimp only at h
  split at h
  · cases h
    rfl
  · cases h

end SourceLine

namespace Layout

variable {table : OpcodeTable} {duplicates : DuplicateLabels} {policy : Policy}
  {filename : String} {d s : Int} {lines lines' : List String} {l l' : Layout}

structure Moved (d : Int) (l l' : Layout) : Prop where
  name_eq : l'.program.name = l.program.name
  length_eq : l'.program.length = l.program.length
  start_eq : l'.program.start = l.program.start + d
  endAddress_eq : l'.endAddress = l.endAddress + d
  startEntry_eq : l'.startEntry.map Entry.address = l.startEntry.map fun e => e.address + d
  entries_eq : l'.entries = l.entries.map (Entry.move d)
  symbols_eq : l'.symbols = l.symbols.map (· + d)

/-- Scans of the same statements stay as far apart as their counters were. -/
theorem scan_move {statements : List (Except Diagnostic SourceLine)} :
    ∀ {counter counter' : LocationCounter} {symbols symbols' : SymbolTable} {t t' : Scan},
      counter'.value = counter.value + d →
      (scan table duplicates filename counter symbols statements).result = .ok t →
      (scan table duplicates filename counter' symbols' statements).result = .ok t' →
      t'.entries = t.entries.map (Entry.move d) ∧ t'.counter.value = t.counter.value + d := by
  induction statements with
  | nil =>
    intro counter counter' symbols symbols' t t' hd ht ht'
    simp only [scan, Logged.result_bind_eq_ok, Logged.result_pure, Except.ok.injEq] at ht ht'
    obtain ⟨_, _, rfl⟩ := ht
    obtain ⟨_, _, rfl⟩ := ht'
    exact ⟨rfl, hd⟩
  | cons statement rest ih =>
    intro counter counter' symbols symbols' t t' hd ht ht'
    cases statement with
    | error e => simp [scan] at ht
    | ok line =>
      by_cases hm : line.mnemonic = "END"
      · rw [scan, if_pos hm, Logged.result_pure, Except.ok.injEq] at ht ht'
        subst ht ht'
        exact ⟨by rw [hd]; rfl, hd⟩
      · obtain ⟨entered, n, u, -, hn, -, hu, rfl⟩ := scan_step hm ht
        obtain ⟨entered', n', u', -, hn', -, hu', rfl⟩ := scan_step hm ht'
        obtain rfl : n = n' := by
          rw [hn, Except.ok.injEq] at hn'
          exact hn'
        have hnext : counter'.value + n = counter.value + n + d := by omega
        obtain ⟨hentries, hcounter⟩ := ih hnext hu hu'
        refine ⟨?_, hcounter⟩
        rw [List.map_cons, ← hentries, hd]
        rfl

theorem definitions_move (entries : List Entry) :
    definitions (entries.map (Entry.move d)) =
      (definitions entries).map fun p => (p.1, p.2 + d) := by
  rw [definitions, List.filter_map, List.map_map, definitions, List.map_map]
  rfl

theorem body_moved {name : String} {e e' : Entry} {rest : List (Except Diagnostic SourceLine)}
    (hd : e'.address = e.address + d)
    (h : (body table duplicates filename name (some e) e.address rest).result = .ok l)
    (h' : (body table duplicates filename name (some e') e'.address rest).result = .ok l') :
    Moved d l l' := by
  obtain ⟨t, ht, rfl⟩ := body_eq_ok h
  obtain ⟨t', ht', rfl⟩ := body_eq_ok h'
  obtain ⟨hentries, hcounter⟩ := scan_move hd ht ht'
  have hstart : t.counter.start = e.address := (scan_chain ht).2.1
  have hstart' : t'.counter.start = e'.address := (scan_chain ht').2.1
  refine ⟨rfl, ?_, hd, hcounter, congrArg some hd, hentries, ?_⟩
  · simp only [LocationCounter.length, hstart, hstart', hcounter, hd]
    omega
  · rw [scan_symbols ht', scan_symbols ht, hentries, definitions_move]
    exact Dictionary.insertAll_map (· + d) (definitions t.entries) .empty

/-- A source with a `START` statement at its head is laid out from there on. -/
theorem body_of_start {head label operand : String} {before after : List String}
    (hbefore : ∀ text ∈ before, SourceLine.isComment text = true)
    (hhead : SourceLine.isComment head = false)
    (hfields : Text.fields head = [label, "START", operand])
    (hstart : Text.hexadecimal? operand = some s)
    (h : (ofLines table policy filename (before ++ head :: after)).result = .ok l) :
    ∃ line : SourceLine, line.label = label ∧
      (body table policy.duplicateLabels filename line.programName (some ⟨s, line⟩) s
        (SourceLine.statementsFrom filename (before.length + 2) after)).result = .ok l := by
  obtain ⟨line, rest, hstatements, hcases⟩ := ofLines_cases h
  rw [SourceLine.statements_of_comments hbefore hhead, List.cons.injEq] at hstatements
  obtain ⟨hparse, rfl⟩ := hstatements
  have hline := (SourceLine.parse_eq_ok.mp hparse).1
  rw [hfields, List.cons.injEq, List.cons.injEq, List.cons.injEq] at hline
  obtain ⟨hlabel, hmnemonic, hoperand, -⟩ := hline
  rcases hcases with ⟨-, start, haddress, hb⟩ | ⟨hm, -⟩
  · rw [hoperand] at hstart
    obtain rfl := SourceLine.startAddress_of_hexadecimal hstart haddress
    exact ⟨line, hlabel.symm, hb⟩
  · exact absurd hmnemonic.symm hm

theorem ofLines_moved (hmoved : MovedStart s d lines lines')
    (h : (ofLines table policy filename lines).result = .ok l)
    (h' : (ofLines table policy filename lines').result = .ok l') :
    l.program.start = s ∧ Moved d l l' := by
  cases hmoved with
  | @intro before after head head' label operand operand' hbefore hhead hfields hfields' hs hs' =>
    have hhead' : SourceLine.isComment head' = false := by
      rw [← hhead]
      apply SourceLine.isComment_congr
      rw [hfields, hfields', List.head?_cons, List.head?_cons]
    obtain ⟨line, hlabel, hb⟩ := body_of_start hbefore hhead hfields hs h
    obtain ⟨line', hlabel', hb'⟩ := body_of_start hbefore hhead' hfields' hs' h'
    have hname : line'.programName = line.programName := by
      rw [SourceLine.programName, SourceLine.programName, SourceLine.hasLabel,
        SourceLine.hasLabel, hlabel, hlabel']
    rw [hname] at hb'
    refine ⟨?_, body_moved rfl hb hb'⟩
    obtain ⟨t, -, rfl⟩ := body_eq_ok hb
    rfl

end Layout

namespace SourceLine

variable {table : OpcodeTable} {symbols : SymbolTable} {d : Int} {l : SourceLine}

def labelAddress? (symbols : SymbolTable) (l : SourceLine) : Option Int :=
  if l.operand = absent then none else symbols.get? l.operand

theorem operandValue_eq (symbols : SymbolTable) (l : SourceLine) :
    l.operandValue symbols = (l.labelAddress? symbols).getD 0 := by
  unfold operandValue labelAddress?
  split
  · rfl
  · rfl

theorem labelAddress?_map : l.labelAddress? (symbols.map (· + d)) =
    (l.labelAddress? symbols).map (· + d) := by
  unfold labelAddress?
  split
  · rfl
  · exact Dictionary.get?_map _ _ _

theorem units_of_get? {code : String} (h : table.get? l.mnemonic = some code) :
    l.units table symbols = [code ++ Text.hexField 4 (l.operandValue symbols)] := by
  rw [units, if_pos (by simp [Dictionary.contains, h]), encoding_of_get? h]

/-- The labels matter only to instructions. -/
theorem units_congr {symbols' : SymbolTable} (h : table.get? l.mnemonic = none) :
    l.units table symbols = l.units table symbols' := by
  have hencoding : l.encoding table symbols = l.encoding table symbols' := by
    rw [encoding, encoding, h]
  rw [units, units, hencoding]

end SourceLine

namespace Piece

variable {table : OpcodeTable} {symbols : SymbolTable} {d : Int}

/-- The unit of a piece in the moved program. Only an instruction that holds the address of a label
has another one. -/
def movedCode (table : OpcodeTable) (symbols : SymbolTable) (d : Int) (p : Piece) : String :=
  match table.get? p.entry.line.mnemonic, p.entry.line.labelAddress? symbols with
  | some code, some address => code ++ Text.hexField 4 (address + d)
  | _, _ => p.code

def move (table : OpcodeTable) (symbols : SymbolTable) (d : Int) (p : Piece) : Piece :=
  ⟨p.index, p.entry.move d, p.offset, p.movedCode table symbols d⟩

def KeepsSize (table : OpcodeTable) (symbols : SymbolTable) (d : Int) (p : Piece) : Prop :=
  (p.move table symbols d).size = p.size

theorem movedCode_of_get?_eq_none {p : Piece} (h : table.get? p.entry.line.mnemonic = none) :
    p.movedCode table symbols d = p.code := by
  rw [movedCode, h]

/-- What becomes of the unit of a piece when the program moves. -/
inductive MovesTo (table : OpcodeTable) (symbols : SymbolTable) (d : Int) (p : Piece) :
    String → Prop where
  /-- An instruction holds the address of a label, which moves. -/
  | label {code : String} {address : Int} (hc : table.get? p.entry.line.mnemonic = some code)
      (ho : p.entry.line.operand ≠ SourceLine.absent)
      (ha : symbols.get? p.entry.line.operand = some address)
      (hp : p.code = code ++ Text.hexField 4 address) :
      MovesTo table symbols d p (code ++ Text.hexField 4 (address + d))
  /-- An instruction without an operand that names a label holds zero. -/
  | zero {code : String} (hc : table.get? p.entry.line.mnemonic = some code)
      (ho : p.entry.line.operand = SourceLine.absent ∨ symbols.get? p.entry.line.operand = none)
      (hp : p.code = code ++ "0000") : MovesTo table symbols d p p.code
  /-- Data holds no address. -/
  | data (hc : table.get? p.entry.line.mnemonic = none) : MovesTo table symbols d p p.code

end Piece

namespace Entry

variable {table : OpcodeTable} {symbols : SymbolTable} {d : Int} {i : Nat} {e : Entry}

theorem pieces_of_get? {code : String} (h : table.get? e.line.mnemonic = some code) :
    e.pieces table symbols i =
      [⟨i, e, 0, code ++ Text.hexField 4 (e.line.operandValue symbols)⟩] := by
  rw [pieces, SourceLine.units_of_get? h, cut, cut]

theorem cut_move (h : table.get? e.line.mnemonic = none) (codes : List String) :
    ∀ offset : Nat, (e.move d).cut i offset codes =
      (e.cut i offset codes).map (Piece.move table symbols d) := by
  induction codes with
  | nil =>
    intro offset
    rfl
  | cons code codes ih =>
    intro offset
    have hcode : (⟨i, e, offset, code⟩ : Piece).movedCode table symbols d = code :=
      Piece.movedCode_of_get?_eq_none h
    rw [cut, cut, List.map_cons, ih, Piece.move, hcode]

theorem pieces_move : (e.move d).pieces table (symbols.map (· + d)) i =
    (e.pieces table symbols i).map (Piece.move table symbols d) := by
  cases hc : table.get? e.line.mnemonic with
  | none =>
    rw [pieces, pieces, ← cut_move hc]
    exact congrArg _ (SourceLine.units_congr hc)
  | some code =>
    have hc' : table.get? (e.move d).line.mnemonic = some code := hc
    have hlabel : (e.move d).line.labelAddress? (symbols.map (· + d)) =
      (e.line.labelAddress? symbols).map (· + d) := SourceLine.labelAddress?_map
    rw [pieces_of_get? hc', pieces_of_get? hc, List.map_singleton, SourceLine.operandValue_eq,
      SourceLine.operandValue_eq, hlabel]
    cases ha : e.line.labelAddress? symbols with
    | none => simp [Piece.move, Piece.movedCode, hc, ha]
    | some address => simp [Piece.move, Piece.movedCode, hc, ha]

theorem movesTo_movedCode {p : Piece} (hp : p ∈ e.pieces table symbols i) :
    p.MovesTo table symbols d (p.movedCode table symbols d) := by
  obtain ⟨-, rfl⟩ := mem_cut hp
  cases hc : table.get? p.entry.line.mnemonic with
  | none =>
    rw [Piece.movedCode_of_get?_eq_none hc]
    exact .data hc
  | some code =>
    rw [pieces_of_get? hc, List.mem_singleton, SourceLine.operandValue_eq] at hp
    have hcode : p.code = code ++ Text.hexField 4 ((p.entry.line.labelAddress? symbols).getD 0) :=
      congrArg Piece.code hp
    have hzero : Text.hexField 4 ((none : Option Int).getD 0) = "0000" := by decide +kernel
    rw [Piece.movedCode, hc]
    unfold SourceLine.labelAddress? at hcode ⊢
    by_cases ho : p.entry.line.operand = SourceLine.absent
    · rw [if_pos ho] at hcode ⊢
      rw [hzero] at hcode
      exact .zero hc (.inl ho) hcode
    · rw [if_neg ho] at hcode ⊢
      cases ha : symbols.get? p.entry.line.operand with
      | none =>
        rw [ha, hzero] at hcode
        exact .zero hc (.inr ha) hcode
      | some address =>
        rw [ha] at hcode
        exact .label hc ho ha hcode

end Entry

namespace Groups

variable {table : OpcodeTable} {symbols : SymbolTable} {d : Int}

theorem enter_move {g : Groups Piece} {i : Nat} {e : Entry}
    (hg : ∀ p ∈ g.all, p.KeepsSize table symbols d)
    (he : ∀ p ∈ e.pieces table symbols i, p.KeepsSize table symbols d) :
    (g.map (Piece.move table symbols d)).enter table (symbols.map (· + d)) i (e.move d) =
      (g.enter table symbols i e).map (Piece.move table symbols d) := by
  unfold enter
  rw [Entry.pieces_move]
  by_cases hr : e.line.reserves table = true
  · rw [if_pos hr, if_pos (show (e.move d).line.reserves table = true from hr), close_map]
  · rw [if_neg hr, if_neg (show ¬(e.move d).line.reserves table = true from hr)]
    exact pushes_map he hg

/-- Pieces that keep their sizes are gathered into the same groups. -/
theorem gather_move {entries : List Entry}
    (he : ∀ e ∈ entries, ∀ i, ∀ p ∈ e.pieces table symbols i, p.KeepsSize table symbols d) :
    ∀ {i : Nat} {g : Groups Piece}, (∀ p ∈ g.all, p.KeepsSize table symbols d) →
      gather table (symbols.map (· + d)) i (g.map (Piece.move table symbols d))
          (entries.map (Entry.move d)) =
        (gather table symbols i g entries).map (Piece.move table symbols d) := by
  induction entries with
  | nil =>
    intro i g _
    rfl
  | cons e entries ih =>
    intro i g hg
    rw [List.forall_mem_cons] at he
    rw [List.map_cons, gather, gather, enter_move hg (he.1 i)]
    apply ih he.2
    rw [all_enter, List.forall_mem_append]
    exact ⟨hg, he.1 i⟩

end Groups

theorem Layout.Moved.coded_eq {d : Int} {l l' : Layout} (h : l.Moved d l') :
    l'.coded = l.coded.map (Entry.move d) := by
  rw [Layout.coded, h.entries_eq, List.takeWhile_map]
  rfl

/-- A run and a run of the moved source: every address is moved, the records are cut at the same
units, and of the code only the addresses of labels change. -/
structure Assembly.Relocated (table : OpcodeTable) (d : Int) (a b : Assembly) : Prop where
  layout : a.layout.Moved d b.layout
  records_eq : a.records = .header a.program.name a.program.start a.program.length ::
    ((Record.texts a.records).map .text ++ [.finish a.program.start])
  moved_records_eq : b.records = .header a.program.name (a.program.start + d) a.program.length ::
    ((Record.texts b.records).map .text ++ [.finish (a.program.start + d)])
  texts : List.Forall₂
    (fun r r' => r'.start = r.start + d ∧ r'.units.map unitSize = r.units.map unitSize)
    (Record.texts a.records) (Record.texts b.records)
  units_eq : (Record.texts a.records).flatMap TextRecord.units =
    (a.layout.pieces table).map Piece.code
  units : List.Forall₂ (Piece.MovesTo table a.layout.symbols d) (a.layout.pieces table)
    ((Record.texts b.records).flatMap TextRecord.units)

namespace ObjectProgram

variable {table : OpcodeTable} {undefinedSymbols : UndefinedSymbols} {d : Int} {l l' : Layout}
  {records records' : List Record}

theorem Packed.length_operand (h : Packed table undefinedSymbols l records) {e : Entry}
    (he : e ∈ l.coded) {code : String} (hc : table.get? e.line.mnemonic = some code) :
    (Text.hexField 4 (e.line.operandValue l.symbols)).length = 4 := by
  obtain ⟨em, hem⟩ := h.emission e he
  have hencoded := (SourceLine.emits_of_emission hem).encoded (h.laid.operandValue_nonneg e.line)
  exact hencoded.address_digits (by simp [Dictionary.contains, hc])

/-- Where both programs have code, the pieces keep their sizes. -/
theorem Packed.keepsSize (h : Packed table undefinedSymbols l records)
    (h' : Packed table undefinedSymbols l' records') (hmoved : l.Moved d l') {e : Entry}
    (he : e ∈ l.coded) {i : Nat} {p : Piece} (hp : p ∈ e.pieces table l.symbols i) :
    p.KeepsSize table l.symbols d := by
  cases hc : table.get? e.line.mnemonic with
  | none =>
    obtain ⟨-, rfl⟩ := Entry.mem_cut hp
    exact congrArg unitSize (Piece.movedCode_of_get?_eq_none hc)
  | some code =>
    have hc' : table.get? (e.move d).line.mnemonic = some code := hc
    have he' : e.move d ∈ l'.coded := by
      rw [hmoved.coded_eq]
      exact List.mem_map_of_mem he
    have hp' : p.move table l.symbols d ∈ (e.move d).pieces table l'.symbols i := by
      rw [hmoved.symbols_eq, Entry.pieces_move]
      exact List.mem_map_of_mem hp
    rw [Entry.pieces_of_get? hc, List.mem_singleton] at hp
    rw [Entry.pieces_of_get? hc', List.mem_singleton] at hp'
    rw [Piece.KeepsSize, hp', hp, Piece.size, Piece.size, unitSize, unitSize,
      String.length_append, String.length_append, h.length_operand he hc,
      h'.length_operand he' hc']

/-- The records of the moved program hold the moved pieces in the same groups. -/
theorem Packed.groups_move (h : Packed table undefinedSymbols l records)
    (h' : Packed table undefinedSymbols l' records') (hmoved : l.Moved d l') :
    l'.groups table = (l.groups table).map (List.map (Piece.move table l.symbols d)) := by
  have hgather : Groups.gather table (l.symbols.map (· + d)) 0 .empty
        (l.coded.map (Entry.move d)) =
      (Groups.gather table l.symbols 0 .empty l.coded).map (Piece.move table l.symbols d) := by
    apply Groups.gather_move (g := .empty)
    · intro e he i p hp
      exact h.keepsSize h' hmoved he hp
    · intro p hp
      cases hp
  rw [Layout.groups, hmoved.coded_eq, hmoved.symbols_eq, hgather, Groups.close_map]
  rfl

theorem record_move {symbols : SymbolTable} {g : List Piece} (h : g ≠ []) :
    Piece.record (g.map (Piece.move table symbols d)) =
      ⟨(Piece.record g).start + d, g.map (Piece.movedCode table symbols d)⟩ := by
  cases g with
  | nil => exact absurd rfl h
  | cons p g =>
    have hplace : (p.move table symbols d).place = p.place + d := by
      simp only [Piece.place, Piece.move, Entry.move]
      omega
    simp only [Piece.record, Groups.record, List.map_cons, List.head?_cons, Option.map_some,
      Option.getD_some, hplace, List.map_map]
    rfl

theorem Packed.units_eq (h : Packed table undefinedSymbols l records) :
    (Record.texts records).flatMap TextRecord.units = (l.pieces table).map Piece.code := by
  rw [h.texts_eq, ← Layout.flatten_groups, List.map_flatten, List.flatMap_map]
  rfl

theorem Packed.texts_move (h : Packed table undefinedSymbols l records)
    (h' : Packed table undefinedSymbols l' records') (hmoved : l.Moved d l') :
    Record.texts records' = (l.groups table).map fun g =>
      ⟨(Piece.record g).start + d, g.map (Piece.movedCode table l.symbols d)⟩ := by
  rw [h'.texts_eq, h.groups_move h' hmoved, List.map_map]
  apply List.map_congr_left
  intro g hg
  exact record_move (h.group_ne_nil hg)

theorem Packed.keepsSize_of_mem_pieces (h : Packed table undefinedSymbols l records)
    (h' : Packed table undefinedSymbols l' records') (hmoved : l.Moved d l') {p : Piece}
    (hp : p ∈ l.pieces table) : p.KeepsSize table l.symbols d := by
  obtain ⟨hentry, hpiece⟩ := Layout.mem_pieces hp
  exact h.keepsSize h' hmoved (List.mem_of_getElem? hentry) hpiece

theorem Packed.relocated {a b : Assembly} (h : Packed table undefinedSymbols a.layout a.records)
    (h' : Packed table undefinedSymbols b.layout b.records) (hmoved : a.layout.Moved d b.layout) :
    a.Relocated table d b where
  layout := hmoved
  records_eq := by
    rw [h.texts_eq]
    exact h.records_eq
  moved_records_eq := by
    rw [h'.texts_eq, Assembly.program, ← hmoved.name_eq, ← hmoved.start_eq, ← hmoved.length_eq]
    exact h'.records_eq
  texts := by
    rw [h.texts_eq, h.texts_move h' hmoved, List.forall₂_map_left_iff, List.forall₂_map_right_iff,
      List.forall₂_same]
    intro g hg
    refine ⟨rfl, ?_⟩
    rw [List.map_map, Piece.record, Groups.record, List.map_map]
    apply List.map_congr_left
    intro p hp
    exact h.keepsSize_of_mem_pieces h' hmoved (Layout.mem_pieces_of_mem_group hg hp)
  units_eq := h.units_eq
  units := by
    have hunits : (Record.texts b.records).flatMap TextRecord.units =
        (a.layout.pieces table).map (Piece.movedCode table a.layout.symbols d) := by
      rw [h.texts_move h' hmoved, ← Layout.flatten_groups, List.map_flatten, List.flatMap_map]
      rfl
    rw [hunits, List.forall₂_map_right_iff, List.forall₂_same]
    intro p hp
    exact Entry.movesTo_movedCode (Layout.mem_pieces hp).2

end ObjectProgram

/-- Two sources that differ only in where their `START` statement puts the program, by a distance
`d`, are assembled to the same program at that distance. -/
theorem relocation_moves_only_addresses {policy : Policy} {opcodes : OpcodeSource}
    {filename : String} {table : OpcodeTable} {s d : Int} {lines lines' : List String}
    {a b : Assembly} (hload : (opcodes.load Assembly.opcodesName).result = .ok table)
    (hmoved : MovedStart s d lines lines')
    (ha : (Assembly.ofLines policy opcodes filename lines).result = .ok a)
    (hb : (Assembly.ofLines policy opcodes filename lines').result = .ok b) :
    a.program.start = s ∧ a.Relocated table d b := by
  have hlayout := (Assembly.ofLines_eq_ok hload ha).1
  have hlayout' := (Assembly.ofLines_eq_ok hload hb).1
  obtain ⟨hstart, hlayouts⟩ := Layout.ofLines_moved hmoved hlayout hlayout'
  have hpacked := Assembly.packed_of_ofLines hload ha
  have hpacked' := Assembly.packed_of_ofLines hload hb
  exact ⟨hstart, hpacked.relocated hpacked' hlayouts⟩

/-- A program with a label that is used before it is defined, an operand that no label defines, one
that is left out, and a literal that is cut into two records. -/
def movableProgram (start : String) : List String :=
  [". moved"] ++ start :: ["- LDA B", "- LDA NOPE", "- RSUB -",
    "A BYTE C'ABCDEFGHIJKLMNOPQRSTUVWXYZABCDEFGHIJ'", "C RESW 1", "B LDA A", "- END P"]

theorem relocation_of_cut_literal :
    MovedStart 0x1000 0x10F3 (movableProgram "P START 1000") (movableProgram "P  START 0x20F3") ∧
    ∃ a b,
      (Assembly.ofLines {} .standard "<input>" (movableProgram "P START 1000")).result = .ok a ∧
      (Record.texts a.records).map TextRecord.start = [0x1000, 0x1009, 0x1027, 0x1030] ∧
      (Assembly.ofLines {} .standard "<input>" (movableProgram "P  START 0x20F3")).result =
        .ok b ∧
      (Record.texts b.records).map TextRecord.start = [0x20F3, 0x20FC, 0x211A, 0x2123] ∧
      a.Relocated .standard 0x10F3 b := by
  have hfields : Text.fields "P START 1000" = ["P", "START", "1000"] := by decide +kernel
  have hfields' : Text.fields "P  START 0x20F3" = ["P", "START", "0x20F3"] := by decide +kernel
  have hmoved : MovedStart 0x1000 0x10F3 (movableProgram "P START 1000")
      (movableProgram "P  START 0x20F3") :=
    .intro (by decide +kernel) (by decide +kernel) hfields hfields' (by decide +kernel)
      (by decide +kernel)
  have hfirst : ∃ a,
      (Assembly.ofLines {} .standard "<input>" (movableProgram "P START 1000")).result = .ok a ∧
      decide ((Record.texts a.records).map TextRecord.start =
        [0x1000, 0x1009, 0x1027, 0x1030]) = true :=
    Logged.exists_of_any (by decide +kernel)
  have hsecond : ∃ b,
      (Assembly.ofLines {} .standard "<input>" (movableProgram "P  START 0x20F3")).result =
        .ok b ∧
      decide ((Record.texts b.records).map TextRecord.start =
        [0x20F3, 0x20FC, 0x211A, 0x2123]) = true :=
    Logged.exists_of_any (by decide +kernel)
  obtain ⟨a, ha, hstarts⟩ := hfirst
  obtain ⟨b, hb, hstarts'⟩ := hsecond
  have hab := (relocation_moves_only_addresses rfl hmoved ha hb).2
  exact ⟨hmoved, a, b, ha, of_decide_eq_true hstarts, hb, of_decide_eq_true hstarts', hab⟩

end SicAssembler
