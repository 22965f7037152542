import SicAssembler.Proofs.RecordOrder

/-!
# Where the bytes of an entry are in memory

Loading an object program stores the bytes of each text record from the start of the record on. The
records do not overlap, so every byte of the code of an entry is in memory. The bytes are at the
listing address of the entry exactly if no hexadecimal literal stands before them in their record.
-/

namespace SicAssembler

abbrev Memory := Int → Option UInt8

def TextRecord.store (m : Memory) (r : TextRecord) : Memory := fun x =>
  if r.start ≤ x ∧ x < r.finish then r.bytes[(x - r.start).toNat]? else m x

def Record.load (records : List Record) : Memory :=
  (Record.texts records).foldl TextRecord.store fun _ => none

namespace TextRecord

variable {m : Memory} {r : TextRecord} {x : Int}

theorem store_of_lt (h : x < r.start) : store m r x = m x :=
  if_neg (by omega)

theorem store_start_add {k : Nat} {b : UInt8} (h : r.bytes[k]? = some b) :
    store m r (r.start + k) = some b := by
  obtain ⟨hk, -⟩ := List.getElem?_eq_some_iff.mp h
  rw [length_bytes] at hk
  have hinside : r.start ≤ r.start + k ∧ r.start + k < r.finish := by
    unfold finish
    omega
  rw [store, if_pos hinside, add_sub_cancel_left, Int.toNat_natCast]
  exact h

theorem foldl_store_of_lt {rs : List TextRecord} :
    ∀ {m : Memory}, (∀ r ∈ rs, x < r.start) → rs.foldl store m x = m x := by
  induction rs with
  | nil =>
    intro m _
    rfl
  | cons r rs ih =>
    intro m h
    rw [List.forall_mem_cons] at h
    rw [List.foldl_cons, ih h.2, store_of_lt h.1]

/-- Of records that ascend, each is in memory after all are stored. -/
theorem foldl_store_of_mem {rs : List TextRecord} {k : Nat} {b : UInt8} :
    ∀ {m : Memory}, rs.Pairwise (fun r s => r.finish ≤ s.start) → r ∈ rs →
      r.bytes[k]? = some b → rs.foldl store m (r.start + k) = some b := by
  induction rs with
  | nil =>
    intro m _ hr
    cases hr
  | cons s rs ih =>
    intro m hpairwise hr hb
    rw [List.pairwise_cons] at hpairwise
    rw [List.foldl_cons]
    rcases List.mem_cons.mp hr with rfl | hr
    · -- The records after `r` start where it ends or later.
      have hk := (List.getElem?_eq_some_iff.mp hb).1
      rw [length_bytes] at hk
      rw [foldl_store_of_lt, store_start_add hb]
      intro t ht
      have hstart := hpairwise.1 t ht
      unfold finish at hstart
      omega
    · exact ih hpairwise.2 hr hb

end TextRecord

variable {table : OpcodeTable} {undefinedSymbols : UndefinedSymbols}

namespace Piece

theorem GeneratedIn.getElem?_hexBytes {l : Layout} {p : Piece} (h : p.GeneratedIn table l)
    {k : Nat} (hk : k < p.size) :
    (Text.hexBytes p.code)[k]? =
      (Text.hexBytes (p.entry.line.encoding table l.symbols))[p.offset + k]? := by
  have hshort : p.size ≤ maxTextBytes := by
    have hlength := congrArg List.length h.code
    rw [String.length_toList, List.length_take] at hlength
    rw [size, unitSize]
    omega
  rw [Text.hexBytes, h.code, Text.bytesOfDigits_take, Text.bytesOfDigits_drop,
    List.getElem?_take_of_lt (by omega), List.getElem?_drop]
  rfl

theorem getElem?_bytes_record {before after : List Piece} {p : Piece} {k : Nat} (hk : k < p.size) :
    (record (before ++ p :: after)).bytes[unitsSize (before.map code) + k]? =
      (Text.hexBytes p.code)[k]? := by
  have hbytes : (record (before ++ p :: after)).bytes =
      (record before).bytes ++ (Text.hexBytes p.code ++ (record after).bytes) := by
    simp [TextRecord.bytes, record, Groups.record]
  have hlength : (record before).bytes.length = unitsSize (before.map code) :=
    TextRecord.length_bytes _
  rw [hbytes, List.getElem?_append_right (by omega), hlength, Nat.add_sub_cancel_left,
    List.getElem?_append_left (by rw [Text.length_hexBytes]; exact hk)]

end Piece

namespace Assembly

/-- Byte `k` of the code of the entry at position `i` loads at an address: a unit of the entry holds
it, and in the record it comes after the units before that one. -/
def LoadsAt (table : OpcodeTable) (a : Assembly) (i k : Nat) (x : Int) : Prop :=
  ∃ r before p after,
    (r, before ++ p :: after) ∈ (Record.texts a.records).zip (a.sources table) ∧ p.index = i ∧
      ∃ j < p.size, k = p.offset + j ∧
        x = r.start + (unitsSize (before.map Piece.code) + j : Nat)

/-- No hexadecimal literal stands before a unit of the entry at position `i` in a record. -/
def Unskewed (table : OpcodeTable) (a : Assembly) (i : Nat) : Prop :=
  ∀ g ∈ a.sources table, g.Pairwise fun q p =>
    p.index = i → q.entry.line.hexLiteralBytes table = 0

instance (table : OpcodeTable) (a : Assembly) (i : Nat) : Decidable (a.Unskewed table i) :=
  inferInstanceAs (Decidable (∀ g ∈ a.sources table, _))

end Assembly

private theorem pairwise_of_splits {α : Type} {R : α → α → Prop} {g : List α}
    (h : ∀ before p after, g = before ++ p :: after → ∀ q ∈ before, R q p) : g.Pairwise R := by
  rw [List.pairwise_iff_getElem]
  intro i j hi hj hij
  apply h (g.take j) g[j] (g.drop (j + 1))
  · rw [List.getElem_cons_drop, List.take_append_drop]
  · exact List.mem_take_iff_getElem.mpr ⟨i, by omega, rfl⟩

namespace ObjectProgram

variable {a : Assembly} {i k : Nat} {x : Int} {e : Entry}

theorem Packed.exists_loadsAt (h : Packed table undefinedSymbols a.layout a.records)
    (hcodes : table.HasByteCodes) (he : a.layout.coded[i]? = some e)
    (hk : k < unitSize (e.line.encoding table a.layout.symbols)) :
    ∃ x, a.LoadsAt table i k x := by
  have hs := h.sized hcodes e (List.mem_of_getElem? he)
  rw [unitSize, ← String.length_toList] at hk
  obtain ⟨p, hp, hle, hlt⟩ := Entry.exists_cutChars (i := i) (e := e) 0 hk
  have hindex := (Entry.cutOf_of_mem hp).index_eq
  have hmem : p ∈ a.layout.pieces table := by
    refine Layout.mem_pieces_iff.mpr ⟨i, e, he, ?_⟩
    rw [Entry.pieces_eq_cutChars hs]
    exact hp
  rw [← Layout.flatten_groups, List.mem_flatten] at hmem
  obtain ⟨g, hg, hpg⟩ := hmem
  obtain ⟨before, after, rfl⟩ := List.append_of_mem hpg
  exact ⟨_, _, before, p, after, h.mem_zip_sources.mpr ⟨hg, rfl⟩, hindex, k - p.offset, by omega,
    by omega, rfl⟩

theorem Packed.load_of_loadsAt (h : Packed table undefinedSymbols a.layout a.records)
    (hcodes : table.HasByteCodes) (he : a.layout.coded[i]? = some e) {b : UInt8}
    (hb : (Text.hexBytes (e.line.encoding table a.layout.symbols))[k]? = some b)
    (hx : a.LoadsAt table i k x) : Record.load a.records x = some b := by
  obtain ⟨r, before, p, after, hmem, rfl, j, hj, rfl, rfl⟩ := hx
  obtain ⟨hg, rfl⟩ := h.mem_zip_sources.mp hmem
  have hgenerated := Piece.generatedIn
    (Layout.mem_pieces_of_mem_group hg (by simp : p ∈ _)) (h.sized hcodes)
  have hentry : p.entry = e := Option.some.inj (hgenerated.entry.symm.trans he)
  apply TextRecord.foldl_store_of_mem (h.pairwise_records hcodes)
  · rw [h.texts_eq]
    exact List.mem_map_of_mem hg
  · rw [Piece.getElem?_bytes_record hj, hgenerated.getElem?_hexBytes hj, hentry]
    exact hb

theorem Packed.address_eq_of_mem_group (h : Packed table undefinedSymbols a.layout a.records)
    (hcodes : table.HasByteCodes) (he : a.layout.coded[i]? = some e) {before after : List Piece} {p : Piece}
    (hg : before ++ p :: after ∈ a.layout.groups table) (hi : p.index = i) :
    (Piece.record (before ++ p :: after)).start + unitsSize (before.map Piece.code) +
      (before.map (Piece.hexBytes table)).sum = e.address + p.offset := by
  have hmem := Layout.mem_pieces_of_mem_group hg (by simp : p ∈ before ++ p :: after)
  have hentry := (Layout.mem_pieces hmem).1
  rw [hi, he, Option.some.injEq] at hentry
  have hplace := Piece.place_of_isChain (h.linked hcodes _ hg).2
  rw [Piece.place, ← hentry] at hplace
  exact hplace.symm

theorem Packed.loadsAt_listing_iff (h : Packed table undefinedSymbols a.layout a.records)
    (hcodes : table.HasByteCodes) (he : a.layout.coded[i]? = some e) :
    (∀ k x, a.LoadsAt table i k x → x = e.address + k) ↔ a.Unskewed table i := by
  constructor
  · intro hall g hg
    rw [h.sources_eq] at hg
    apply pairwise_of_splits
    rintro before p after rfl q hq hi
    have hpos := h.size_pos hg (by simp : p ∈ _)
    have hplace := h.address_eq_of_mem_group hcodes he hg hi
    have hfirst := hall p.offset _ ⟨_, before, p, after, h.mem_zip_sources.mpr ⟨hg, rfl⟩, hi, 0,
      hpos, rfl, rfl⟩
    have hzero : (before.map (Piece.hexBytes table)).sum = 0 := by omega
    exact List.sum_eq_zero_iff_forall_eq_nat.mp hzero _ (List.mem_map_of_mem hq)
  · rintro hunskewed k x ⟨r, before, p, after, hmem, hi, j, hj, rfl, rfl⟩
    obtain ⟨hg, rfl⟩ := h.mem_zip_sources.mp hmem
    have hplace := h.address_eq_of_mem_group hcodes he hg hi
    have hpairwise := hunskewed _ (h.sources_eq ▸ hg)
    have hzero : (before.map (Piece.hexBytes table)).sum = 0 := by
      rw [List.sum_eq_zero_iff_forall_eq_nat, List.forall_mem_map]
      intro q hq
      exact (List.pairwise_append.mp hpairwise).2.2 q hq p List.mem_cons_self hi
    omega

end ObjectProgram

/-- The bytes of an entry are all in memory. They are at the address of the entry in the listing, one
after another, exactly if no hexadecimal literal stands before them in their record. -/
theorem bytes_at_listing_address_iff_unskewed {policy : Policy} {opcodes : OpcodeSource}
    {filename : String} {lines : List String} {a : Assembly}
    (hload : (opcodes.load Assembly.opcodesName).result = .ok table)
    (hcodes : table.HasByteCodes)
    (h : (Assembly.ofLines policy opcodes filename lines).result = .ok a) {i : Nat} {e : Entry}
    (he : a.layout.coded[i]? = some e) :
    (∀ (k : Nat) b, (Text.hexBytes (e.line.encoding table a.layout.symbols))[k]? = some b →
        (∃ x, a.LoadsAt table i k x) ∧
          ∀ x, a.LoadsAt table i k x → Record.load a.records x = some b) ∧
      ((∀ k x, a.LoadsAt table i k x → x = e.address + k) ↔ a.Unskewed table i) ∧
      (a.Unskewed table i →
        ∀ (k : Nat) b, (Text.hexBytes (e.line.encoding table a.layout.symbols))[k]? = some b →
          Record.load a.records (e.address + k) = some b) := by
  have hpacked := Assembly.packed_of_ofLines hload h
  have hloaded : ∀ (k : Nat) b,
      (Text.hexBytes (e.line.encoding table a.layout.symbols))[k]? = some b →
        (∃ x, a.LoadsAt table i k x) ∧
          ∀ x, a.LoadsAt table i k x → Record.load a.records x = some b := by
    intro k b hb
    have hk := (List.getElem?_eq_some_iff.mp hb).1
    rw [Text.length_hexBytes] at hk
    exact ⟨hpacked.exists_loadsAt hcodes he hk,
      fun x hx => hpacked.load_of_loadsAt hcodes he hb hx⟩
  have hplaced := hpacked.loadsAt_listing_iff hcodes he
  refine ⟨hloaded, hplaced, ?_⟩
  intro hunskewed k b hb
  obtain ⟨⟨x, hx⟩, hmemory⟩ := hloaded k b hb
  rw [← hplaced.mpr hunskewed k x hx]
  exact hmemory x hx

/-- Text that is cut is whole in memory, though a hexadecimal literal comes before it in the
listing: the reserved storage between them starts a new record. -/
theorem bytes_at_listing_address_after_reserved_storage :
    ∃ (a : Assembly) (e : Entry),
      (Assembly.ofLines {} .standard "<input>" reservedStorageProgram).result = .ok a ∧
      OpcodeTable.standard.HasByteCodes ∧ a.layout.coded[3]? = some e ∧
      a.Unskewed .standard 3 ∧ ¬ a.Unskewed .standard 1 ∧ e.address = 0x1011 ∧
      Record.load a.records (0x1011 + 30) = some 0x4C := by
  have hcodes : OpcodeTable.standard.HasByteCodes := by decide +kernel
  have hrun : ∃ a,
      (Assembly.ofLines {} .standard "<input>" reservedStorageProgram).result = .ok a ∧
      (decide (a.Unskewed .standard 3 ∧ ¬ a.Unskewed .standard 1) &&
        a.layout.coded[3]?.any fun e => decide (e.address = 0x1011 ∧
          (Text.hexBytes (e.line.encoding .standard a.layout.symbols))[30]? = some 0x4C)) = true :=
    Logged.exists_of_any (by decide +kernel)
  obtain ⟨a, ha, hfacts⟩ := hrun
  obtain ⟨hskew, hentry⟩ := Bool.and_eq_true_iff.mp hfacts
  obtain ⟨hthree, hone⟩ := of_decide_eq_true hskew
  obtain ⟨e, he, hbyte⟩ := (Option.any_eq_true _ _).mp hentry
  obtain ⟨haddress, hbyte⟩ := of_decide_eq_true hbyte
  have hmemory := (bytes_at_listing_address_iff_unskewed rfl hcodes ha he).2.2 hthree 30 _ hbyte
  rw [haddress] at hmemory
  exact ⟨a, e, ha, hcodes, he, hthree, hone, haddress, hmemory⟩

/-- After a hexadecimal literal a word loads below its address, and the last of its three bytes is
not where the listing has it. -/
theorem word_after_literal_not_at_listing_address :
    ∃ (a : Assembly) (e : Entry),
      (Assembly.ofLines {} .standard "<input>"
        ["P START 1000", "A BYTE X'F1'", "B WORD 5", "- END P"]).result = .ok a ∧
      OpcodeTable.standard.HasByteCodes ∧ a.layout.coded[1]? = some e ∧ e.address = 0x1002 ∧
      [0x1000, 0x1001, 0x1002, 0x1003, 0x1004].map (Record.load a.records) =
        [some 0xF1, some 0, some 0, some 5, none] ∧
      ¬ ∀ (k : Nat) b, (Text.hexBytes (e.line.encoding .standard a.layout.symbols))[k]? = some b →
          Record.load a.records (e.address + k) = some b := by
  have hrun : ∃ a,
      (Assembly.ofLines {} .standard "<input>"
        ["P START 1000", "A BYTE X'F1'", "B WORD 5", "- END P"]).result = .ok a ∧
      (a.layout.coded[1]?.any fun e => decide (e.address = 0x1002 ∧
        Text.hexBytes (e.line.encoding .standard a.layout.symbols) = [0, 0, 5] ∧
        [0x1000, 0x1001, 0x1002, 0x1003, 0x1004].map (Record.load a.records) =
          [some 0xF1, some 0, some 0, some 5, none])) = true :=
    Logged.exists_of_any (by decide +kernel)
  obtain ⟨a, ha, hentry⟩ := hrun
  obtain ⟨e, he, hfacts⟩ := (Option.any_eq_true _ _).mp hentry
  obtain ⟨haddress, hbytes, hmemory⟩ := of_decide_eq_true hfacts
  refine ⟨a, e, ha, by decide +kernel, he, haddress, hmemory, ?_⟩
  intro hall
  have hlast := hall 2 5 (by rw [hbytes]; rfl)
  rw [haddress] at hlast
  simp only [List.map_cons, List.cons.injEq] at hmemory
  have hnone : Record.load a.records (0x1002 + (2 : Nat)) = none := hmemory.2.2.2.2.1
  rw [hnone] at hlast
  cases hlast

end SicAssembler
