import SicAssembler.Proofs.Skew

/-!
# The shape of an object program

The places of the pieces of a layout ascend with the chain of addresses, and a record ends no later
than the place where its last piece ends. So the text records stand in ascending order, apart from
one another and inside the program, between a header and an end record.
-/

namespace SicAssembler

variable {table : OpcodeTable} {symbols : SymbolTable} {undefinedSymbols : UndefinedSymbols}

def Piece.Before (p q : Piece) : Prop := p.place + p.size ≤ q.place

namespace Entry

variable {e : Entry} {i n : Nat}

theorem place_mem_pieces (hsized : e.line.Sized table symbols) (hn : e.line.size table = .ok n)
    {p : Piece} (hp : p ∈ e.pieces table symbols i) :
    e.address ≤ p.place ∧ p.place + p.size ≤ e.address + n := by
  have hreserves : e.line.reserves table = false := by
    rw [← Bool.not_eq_true]
    intro hr
    rw [pieces, SourceLine.units_of_reserves hr] at hp
    cases hp
  have hsize := hsized.size_eq n hn hreserves
  rw [pieces_eq_cutChars hsized] at hp
  have hcut := cutOf_of_mem hp
  have hend := hcut.end_le
  rw [String.length_toList] at hend
  unfold unitSize at hsize
  rw [Piece.place, hcut.entry_eq]
  omega

theorem pairwise_pieces (hsized : e.line.Sized table symbols) :
    (e.pieces table symbols i).Pairwise Piece.Before := by
  have hentry : ∀ p ∈ e.pieces table symbols i, p.entry = e := fun p hp => (mem_cut hp).2
  have hoffsets := pairwise_cutChars (i := i) (e := e) (e.line.encoding table symbols).toList 0
  rw [pieces_eq_cutChars hsized] at hentry ⊢
  refine hoffsets.imp_of_mem ?_
  intro p q hp hq hpq
  rw [Piece.Before, Piece.place, Piece.place, hentry p hp, hentry q hq]
  omega

end Entry

/-- Along a chain of entries the pieces ascend, and they stay inside the chain. -/
theorem Layout.pairwise_piecesFrom {a z : Int} {entries : List Entry}
    (hchain : Chain table a entries z) (hend : ∀ e ∈ entries, e.isEnd = false)
    (hsized : ∀ e ∈ entries, e.line.Sized table symbols) :
    ∀ i : Nat, (piecesFrom table symbols i entries).Pairwise Piece.Before ∧
      ∀ p ∈ piecesFrom table symbols i entries, a ≤ p.place ∧ p.place + p.size ≤ z := by
  induction hchain with
  | stop a =>
    intro i
    exact ⟨.nil, fun p hp => by cases hp⟩
  | finish a hm => simp [Entry.isEnd, hm] at hend
  | next hm hn tail ih =>
    intro i
    rw [List.forall_mem_cons] at hend hsized
    obtain ⟨hpairwise, hbounds⟩ := ih hend.2 hsized.2 (i + 1)
    have hfirst := fun p hp => Entry.place_mem_pieces (p := p) (i := i) hsized.1 hn hp
    have hz := tail.le
    rw [piecesFrom_cons]
    refine ⟨List.pairwise_append.mpr ⟨Entry.pairwise_pieces hsized.1, hpairwise, ?_⟩, ?_⟩
    · intro p hp q hq
      exact Int.le_trans (hfirst p hp).2 (hbounds q hq).1
    · intro p hp
      rcases List.mem_append.mp hp with hp | hp
      · have hplace := hfirst p hp
        dsimp only at hplace
        omega
      · have hplace := hbounds p hp
        omega

theorem TextRecord.length_bytes (r : TextRecord) : r.bytes.length = r.length := by
  obtain ⟨start, units⟩ := r
  unfold bytes length
  induction units with
  | nil => rfl
  | cons unit units ih => simpa [unitSize] using ih

namespace Piece

/-- A record ends no later than the place of its last piece. -/
theorem finish_record_le {g : List Piece} {p : Piece} (h : g.IsChain (Follows table))
    (hp : g.getLast? = some p) : (record g).finish ≤ p.place + p.size := by
  obtain ⟨before, rfl⟩ := List.getLast?_eq_some_iff.mp hp
  have hplace := place_of_isChain h
  have hlength : (record (before ++ [p])).length = unitsSize (before.map code) + p.size := by
    change unitsSize ((before ++ [p]).map code) = _
    simp [size]
  rw [TextRecord.finish, hlength]
  omega

theorem finish_record_le_start {g k : List Piece} (h : g.IsChain (Follows table)) (hg : g ≠ [])
    (hk : k ≠ []) (hbefore : ∀ p ∈ g, ∀ q ∈ k, Before p q) :
    (record g).finish ≤ (record k).start := by
  obtain ⟨q, k, rfl⟩ := List.exists_cons_of_ne_nil hk
  have hlast := List.getLast?_eq_some_getLast hg
  calc (record g).finish
      ≤ (g.getLast hg).place + (g.getLast hg).size := finish_record_le h hlast
    _ ≤ q.place := hbefore _ (List.getLast_mem hg) q List.mem_cons_self

end Piece

namespace ObjectProgram

variable {l : Layout} {records : List Record}

theorem Packed.pairwise_pieces (h : Packed table undefinedSymbols l records)
    (hcodes : table.HasByteCodes) :
    (l.pieces table).Pairwise Piece.Before ∧
      ∀ p ∈ l.pieces table, l.program.start ≤ p.place ∧ p.place + p.size ≤ l.endAddress := by
  obtain ⟨y, hy, hchain⟩ := h.laid.coded_chain
  obtain ⟨hpairwise, hbounds⟩ := Layout.pairwise_piecesFrom hchain
    (fun _ => Layout.isEnd_of_mem_coded) (h.sized hcodes) 0
  refine ⟨hpairwise, ?_⟩
  intro p hp
  have hplace := hbounds p hp
  omega

theorem Packed.record_bounds (h : Packed table undefinedSymbols l records)
    (hcodes : table.HasByteCodes) {g : List Piece}
    (hg : g ∈ l.groups table) :
    (0 < (Piece.record g).length ∧ (Piece.record g).length ≤ maxTextBytes) ∧
      l.program.start ≤ (Piece.record g).start ∧ (Piece.record g).finish ≤ l.endAddress := by
  obtain ⟨hne, hchain⟩ := h.linked hcodes g hg
  have hmax := (TextRecord.fault?_eq_none.mp (h.made g hg)).2.2
  have hmem : ∀ p ∈ g, p ∈ l.pieces table := fun p hp => Layout.mem_pieces_of_mem_group hg hp
  have hplaces := (h.pairwise_pieces hcodes).2
  obtain ⟨p, rest, rfl⟩ := List.exists_cons_of_ne_nil hne
  refine ⟨⟨?_, hmax⟩, (hplaces p (hmem p List.mem_cons_self)).1, ?_⟩
  · have hpos := h.size_pos hg (List.mem_cons_self (a := p))
    exact Nat.lt_of_lt_of_le hpos (Nat.le_add_right _ _)
  · have hlast := List.getLast?_eq_some_getLast hne
    have hend := (hplaces _ (hmem _ (List.getLast_mem hne))).2
    exact Int.le_trans (Piece.finish_record_le hchain hlast) hend

theorem Packed.pairwise_records (h : Packed table undefinedSymbols l records)
    (hcodes : table.HasByteCodes) :
    (Record.texts records).Pairwise fun r s => r.finish ≤ s.start := by
  have hpieces := (h.pairwise_pieces hcodes).1
  rw [← Layout.flatten_groups, List.pairwise_flatten] at hpieces
  rw [h.texts_eq, List.pairwise_map]
  refine hpieces.2.imp_of_mem ?_
  intro g k hg hk hbefore
  obtain ⟨hgne, hgchain⟩ := h.linked hcodes g hg
  obtain ⟨hkne, -⟩ := h.linked hcodes k hk
  exact Piece.finish_record_le_start hgchain hgne hkne hbefore

end ObjectProgram

/-- The object program of an assembly: one header, text records and one end record. The text records
have between 1 and 30 bytes, ascend without overlap, and lie inside the program. -/
theorem records_ascend_inside_program {policy : Policy} {opcodes : OpcodeSource}
    {filename : String} {lines : List String} {a : Assembly}
    (hload : (opcodes.load Assembly.opcodesName).result = .ok table)
    (hcodes : table.HasByteCodes)
    (h : (Assembly.ofLines policy opcodes filename lines).result = .ok a) :
    ∃ texts : List TextRecord,
      a.records = .header a.program.name a.program.start a.program.length ::
        (texts.map .text ++ [.finish a.program.start]) ∧
      a.program.length = a.layout.endAddress - a.program.start ∧
      (∀ r ∈ texts, 1 ≤ r.bytes.length ∧ r.bytes.length ≤ 30) ∧
      texts.Pairwise (fun r s => r.start < s.start ∧ r.start + (r.bytes.length : Int) ≤ s.start) ∧
      ∀ r ∈ texts, a.program.start ≤ r.start ∧
        r.start + r.bytes.length ≤ a.program.start + a.program.length := by
  have hpacked := Assembly.packed_of_ofLines hload h
  have hlength := hpacked.laid.length_eq
  have hbounds : ∀ r ∈ Record.texts a.records,
      (0 < r.length ∧ r.length ≤ maxTextBytes) ∧
        a.layout.program.start ≤ r.start ∧ r.finish ≤ a.layout.endAddress := by
    rw [hpacked.texts_eq, List.forall_mem_map]
    intro g hg
    exact hpacked.record_bounds hcodes hg
  refine ⟨Record.texts a.records, ?_, hlength, ?_, ?_, ?_⟩
  · rw [hpacked.texts_eq]
    exact hpacked.records_eq
  · intro r hr
    rw [TextRecord.length_bytes]
    exact (hbounds r hr).1
  · refine (hpacked.pairwise_records hcodes).imp_of_mem ?_
    intro r s hr hs hrs
    have hpos := (hbounds r hr).1.1
    unfold TextRecord.finish at hrs
    rw [TextRecord.length_bytes]
    omega
  · intro r hr
    obtain ⟨hstart, hfinish⟩ := (hbounds r hr).2
    unfold TextRecord.finish at hfinish
    unfold Assembly.program
    rw [TextRecord.length_bytes, hlength]
    omega

/-- A hexadecimal literal with an instruction after it, reserved storage, and text that is cut. -/
def reservedStorageProgram : List String :=
  ["P START 1000", "A BYTE X'F1F2'", "- LDA A", "T RESB 10",
    "L BYTE C'" ++ String.ofList (List.replicate 31 'L') ++ "'", "- RSUB -", "- END P"]

theorem records_ascend_around_reserved_storage :
    ∃ (a : Assembly) (texts : List TextRecord),
      (Assembly.ofLines {} .standard "<input>" reservedStorageProgram).result = .ok a ∧
      OpcodeTable.standard.HasByteCodes ∧ texts.length = 3 ∧
      a.records = .header "P" 0x1000 a.program.length ::
        (texts.map .text ++ [.finish 0x1000]) ∧
      (∀ r ∈ texts, 1 ≤ r.bytes.length ∧ r.bytes.length ≤ 30) ∧
      texts.Pairwise fun r s => r.start < s.start ∧ r.start + (r.bytes.length : Int) ≤ s.start := by
  have hcodes : OpcodeTable.standard.HasByteCodes := by decide +kernel
  have hrun : ∃ a,
      (Assembly.ofLines {} .standard "<input>" reservedStorageProgram).result = .ok a ∧
      decide (a.program.name = "P" ∧ a.program.start = 0x1000 ∧ a.records.length = 5) = true :=
    Logged.exists_of_any (by decide +kernel)
  obtain ⟨a, ha, hfacts⟩ := hrun
  obtain ⟨hname, hstart, hlength⟩ := of_decide_eq_true hfacts
  obtain ⟨texts, hrecords, -, hbytes, hpairwise, -⟩ := records_ascend_inside_program rfl hcodes ha
  have hthree : texts.length = 3 := by
    rw [hrecords] at hlength
    simpa using hlength
  rw [hname, hstart] at hrecords
  exact ⟨a, texts, ha, hcodes, hthree, hrecords, hbytes, hpairwise⟩

end SicAssembler
