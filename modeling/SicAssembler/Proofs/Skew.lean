import SicAssembler.Proofs.Provenance
import Mathlib.Data.List.SplitLengths
import Mathlib.Algebra.BigOperators.Group.Finset.Basic

/-!
# How far code loads from its listing address

The layout gives a hexadecimal literal two addresses for each byte, and the record that holds the
literal gives it one. So a unit loads below the address in the listing by the bytes of the
hexadecimal literals that stand before it in its record, and a new record starts without any skew.
-/

namespace SicAssembler

open scoped BigOperators

variable {table : OpcodeTable} {undefinedSymbols : UndefinedSymbols}

namespace Piece

theorem start_record_cons (p : Piece) (g : List Piece) : (record (p :: g)).start = p.place := rfl

/-- Between a piece and the start of its record lie the bytes of the pieces before it and the second
addresses of their hexadecimal literals. -/
theorem place_of_isChain {before after : List Piece} {p : Piece}
    (h : (before ++ p :: after).IsChain (Follows table)) :
    p.place = (record (before ++ p :: after)).start + unitsSize (before.map code) +
      (before.map (hexBytes table)).sum := by
  induction before with
  | nil => simp [start_record_cons]
  | cons x before ih =>
    -- The piece after `x` starts the tail, and its place is known from `x`.
    have hnext : (record (before ++ p :: after)).start = x.place + x.size + x.hexBytes table := by
      cases before with
      | nil => exact (List.isChain_cons_cons.mp h).1.place_eq
      | cons y before => exact (List.isChain_cons_cons.mp h).1.place_eq
    have htail := ih h.tail
    rw [hnext] at htail
    rw [htail, List.cons_append, start_record_cons, List.map_cons, List.map_cons, unitsSize_cons,
      List.sum_cons]
    unfold size
    omega

theorem pairwise_index {g : List Piece} (h : g.IsChain (Follows table)) :
    g.Pairwise fun p q => p.index < q.index := by
  have hmap : (g.map index).IsChain (· < ·) :=
    List.isChain_map_of_isChain index (fun _ _ hpq => hpq.index_lt) h
  exact List.pairwise_map.mp hmap.pairwise

end Piece

def Layout.hexBytesAt (table : OpcodeTable) (l : Layout) (i : Nat) : Nat :=
  l.coded[i]?.elim 0 fun e => e.line.hexLiteralBytes table

/-- The bytes of the hexadecimal literals among the other entries that have a unit before a piece. -/
def Piece.skew (table : OpcodeTable) (l : Layout) (before : List Piece) (p : Piece) : Nat :=
  ∑ i ∈ (before.map Piece.index).toFinset.erase p.index, l.hexBytesAt table i

/-- The entry that generated a piece: an entry that is given code, whose code holds the piece at the
offset of the piece. Only a literal has code at an offset other than zero. -/
structure Piece.GeneratedIn (table : OpcodeTable) (l : Layout) (p : Piece) : Prop where
  entry : l.coded[p.index]? = some p.entry
  code : p.code.toList =
    ((p.entry.line.encoding table l.symbols).toList.drop (2 * p.offset)).take (2 * maxTextBytes)
  literal_of_offset : p.offset ≠ 0 →
    table.contains p.entry.line.mnemonic = false ∧ p.entry.line.mnemonic = "BYTE"

namespace Piece

theorem generatedIn {l : Layout} {p : Piece} (hp : p ∈ l.pieces table)
    (hsized : ∀ e ∈ l.coded, e.line.Sized table l.symbols) : p.GeneratedIn table l := by
  obtain ⟨hentry, hmem⟩ := Layout.mem_pieces hp
  have hs := hsized p.entry (List.mem_of_getElem? hentry)
  rw [Entry.pieces_eq_cutChars hs] at hmem
  refine ⟨hentry, (Entry.cutOf_of_mem hmem).code_eq, ?_⟩
  intro hoffset
  rcases hs.short with hbyte | hshort
  · exact hbyte
  · rw [← String.length_toList] at hshort
    exact absurd (Entry.offset_cutChars hshort hmem) hoffset

theorem skew_eq_sum {l : Layout} {before after : List Piece} {p : Piece}
    (h : (before ++ p :: after).IsChain (Follows table))
    (hentry : ∀ q ∈ before, l.coded[q.index]? = some q.entry) :
    p.skew table l before = (before.map (hexBytes table)).sum := by
  have hpairwise := List.pairwise_append.mp (pairwise_index h)
  have hnodup : (before.map index).Nodup :=
    List.pairwise_map.mpr (hpairwise.1.imp fun hlt => Nat.ne_of_lt hlt)
  have hother : p.index ∉ (before.map index).toFinset := by
    intro hmem
    obtain ⟨q, hq, hindex⟩ := List.mem_map.mp (List.mem_toFinset.mp hmem)
    have hlt := hpairwise.2.2 q hq p List.mem_cons_self
    omega
  rw [skew, Finset.erase_eq_of_notMem hother, List.sum_toFinset _ hnodup, List.map_map]
  congr 1
  apply List.map_congr_left
  intro q hq
  simp [Layout.hexBytesAt, hexBytes, hentry q hq]

end Piece

/-- The pieces that each text record holds: the units of the records, from first to last, are the
pieces of the layout in their order. -/
def Assembly.sources (table : OpcodeTable) (a : Assembly) : List (List Piece) :=
  ((Record.texts a.records).map (·.units.length)).splitLengths (a.layout.pieces table)

private theorem splitLengths_flatten {α : Type} (gs : List (List α)) :
    (gs.map List.length).splitLengths gs.flatten = gs := by
  induction gs with
  | nil => rfl
  | cons g gs ih => simp [ih]

theorem ObjectProgram.Packed.sources_eq {a : Assembly}
    (h : Packed table undefinedSymbols a.layout a.records) :
    a.sources table = a.layout.groups table := by
  have hlengths : (Record.texts a.records).map (·.units.length) =
      (a.layout.groups table).map List.length := by
    rw [h.texts_eq, List.map_map]
    apply List.map_congr_left
    intro g _
    exact List.length_map Piece.code
  rw [Assembly.sources, hlengths, ← Layout.flatten_groups, splitLengths_flatten]

theorem ObjectProgram.Packed.mem_zip_sources {a : Assembly}
    (h : Packed table undefinedSymbols a.layout a.records) {r : TextRecord} {g : List Piece} :
    (r, g) ∈ (Record.texts a.records).zip (a.sources table) ↔
      g ∈ a.layout.groups table ∧ Piece.record g = r := by
  rw [h.sources_eq, h.texts_eq, List.zip_map_left, List.zip_eq_zipWith, List.zipWith_self]
  simp

/-- A unit loads at its listing address less the bytes of the hexadecimal literals before it in its
record. So it never loads above that address, and loads there exactly if no such literal stands
before it. -/
theorem load_address_eq_sub_skew {policy : Policy} {opcodes : OpcodeSource} {filename : String}
    {lines : List String} {a : Assembly}
    (hload : (opcodes.load Assembly.opcodesName).result = .ok table)
    (hcodes : table.HasByteCodes)
    (h : (Assembly.ofLines policy opcodes filename lines).result = .ok a) :
    (Record.texts a.records).map TextRecord.units =
        (a.sources table).map (·.map Piece.code) ∧
      ∀ r g, (r, g) ∈ (Record.texts a.records).zip (a.sources table) →
        ∀ before p after, g = before ++ p :: after →
          p.GeneratedIn table a.layout ∧
          r.start + unitsSize (before.map Piece.code) =
            p.entry.address + p.offset - p.skew table a.layout before ∧
          r.start + unitsSize (before.map Piece.code) ≤ p.entry.address + p.offset ∧
          (r.start + unitsSize (before.map Piece.code) = p.entry.address + p.offset ↔
            ∀ q ∈ before, q.entry.line.hexLiteralBytes table = 0) := by
  have hpacked := Assembly.packed_of_ofLines hload h
  have hsized := hpacked.sized hcodes
  refine ⟨by rw [hpacked.sources_eq, hpacked.texts_eq, List.map_map]; rfl, ?_⟩
  intro r g hrg before p after hg
  obtain ⟨hmem, rfl⟩ := hpacked.mem_zip_sources.mp hrg
  subst hg
  have hchain := (hpacked.linked hcodes _ hmem).2
  have hgenerated : ∀ q ∈ before ++ p :: after, q.GeneratedIn table a.layout := by
    intro q hq
    exact Piece.generatedIn (Layout.mem_pieces_of_mem_group hmem hq) hsized
  have hplace := Piece.place_of_isChain hchain
  have hskew : p.skew table a.layout before = (before.map (Piece.hexBytes table)).sum :=
    Piece.skew_eq_sum hchain fun q hq => (hgenerated q (List.mem_append_left _ hq)).entry
  have hzero : (before.map (Piece.hexBytes table)).sum = 0 ↔
      ∀ q ∈ before, q.entry.line.hexLiteralBytes table = 0 := by
    rw [List.sum_eq_zero_iff_forall_eq_nat, List.forall_mem_map]
    rfl
  unfold Piece.place at hplace
  refine ⟨hgenerated p (by simp), by omega, by omega, ?_⟩
  rw [← hzero]
  omega

def cutLiteralProgram : List String :=
  ["P START 1000", "L BYTE X'" ++ String.ofList (List.replicate 62 'F') ++ "'", "W WORD 5",
    "- END P"]

theorem load_address_after_cut_literal :
    ∃ a r before p after,
      (Assembly.ofLines {} .standard "<input>" cutLiteralProgram).result = .ok a ∧
      OpcodeTable.standard.HasByteCodes ∧
      (r, before ++ p :: after) ∈ (Record.texts a.records).zip (a.sources .standard) ∧
      p.entry.address = 0x103E ∧
      r.start + unitsSize (before.map Piece.code) = p.entry.address + p.offset - 31 := by
  have hcodes : OpcodeTable.standard.HasByteCodes := by decide +kernel
  have hrun : ∃ a, (Assembly.ofLines {} .standard "<input>" cutLiteralProgram).result = .ok a ∧
      ((Record.texts a.records).zip (a.sources .standard)).any (fun x => x.2[1]?.any fun p =>
        decide (p.entry.address = 0x103E ∧ p.skew .standard a.layout (x.2.take 1) = 31)) = true :=
    Logged.exists_of_any (by decide +kernel)
  obtain ⟨a, ha, hunit⟩ := hrun
  obtain ⟨⟨r, g⟩, hmem, hg⟩ := List.any_eq_true.mp hunit
  obtain ⟨p, hp, haddress⟩ := (Option.any_eq_true _ _).mp hg
  obtain ⟨haddress, hskew⟩ := of_decide_eq_true haddress
  have hsplit : g = g.take 1 ++ p :: g.drop 2 := by
    obtain ⟨hlt, rfl⟩ := List.getElem?_eq_some_iff.mp hp
    rw [List.getElem_cons_drop, List.take_append_drop]
  obtain ⟨-, hload, -⟩ := (load_address_eq_sub_skew rfl hcodes ha).2 r g hmem _ p _ hsplit
  rw [hskew] at hload
  exact ⟨a, r, g.take 1, p, g.drop 2, ha, hcodes, hsplit ▸ hmem, haddress, hload⟩

end SicAssembler
