import SicAssembler.Assembly.Basic
import SicAssembler.Proofs.AddressChain
import SicAssembler.Proofs.Encoding
import SicAssembler.Proofs.Grouping
import Mathlib.Data.List.TakeWhile

/-!
# Where the units of a program come from

The code of a listing is cut into pieces: each knows its entry and how many bytes of the code of
that entry come before it. The text records of an assembly are groups of these pieces, all of them
and in order.
-/

namespace SicAssembler

/-- The text records among records. -/
def Record.texts (records : List Record) : List TextRecord :=
  records.filterMap fun
    | .text r => some r
    | _ => none

/-- The entries that are given code: those before the first at which code stops. -/
def Layout.coded (l : Layout) : List Entry := l.entries.takeWhile (!·.isEnd)

/-- A unit of code with the entry that generated it: the position of the entry in the listing, and
the bytes of its code that come before the unit. -/
structure Piece where
  index : Nat
  entry : Entry
  offset : Nat
  code : String
  deriving DecidableEq, Repr

namespace Piece

/-- The address that the listing gives to the unit. -/
def place (p : Piece) : Int := p.entry.address + p.offset

def size (p : Piece) : Nat := unitSize p.code

/-- The bytes of the literal that generated the unit, if that is a hexadecimal one. -/
def hexBytes (table : OpcodeTable) (p : Piece) : Nat := p.entry.line.hexLiteralBytes table

end Piece

/-- The units of an entry as pieces that are a full record apart. -/
def Entry.cut (i : Nat) (e : Entry) : Nat → List String → List Piece
  | _, [] => []
  | offset, code :: rest => ⟨i, e, offset, code⟩ :: cut i e (offset + maxTextBytes) rest

def Entry.pieces (table : OpcodeTable) (symbols : SymbolTable) (i : Nat) (e : Entry) : List Piece :=
  e.cut i 0 (e.line.units table symbols)

def Layout.piecesFrom (table : OpcodeTable) (symbols : SymbolTable) (i : Nat)
    (entries : List Entry) : List Piece :=
  (entries.zipIdx i).flatMap fun x => x.1.pieces table symbols x.2

def Layout.pieces (table : OpcodeTable) (l : Layout) : List Piece :=
  piecesFrom table l.symbols 0 l.coded

namespace Entry

variable {i : Nat} {e : Entry}

theorem map_code_cut (offset : Nat) (codes : List String) :
    (e.cut i offset codes).map Piece.code = codes := by
  induction codes generalizing offset with
  | nil => rfl
  | cons code codes ih => simp [cut, ih]

theorem stepped_cut (offset : Nat) (codes : List String) :
    Packer.Stepped Piece.place maxTextBytes (e.address + offset) (e.cut i offset codes) := by
  induction codes generalizing offset with
  | nil => trivial
  | cons code codes ih =>
    refine ⟨rfl, ?_⟩
    have h := ih (offset + maxTextBytes)
    rwa [Int.natCast_add, ← Int.add_assoc] at h

theorem mem_cut {p : Piece} {codes : List String} :
    ∀ {offset : Nat}, p ∈ e.cut i offset codes → p.index = i ∧ p.entry = e := by
  induction codes with
  | nil =>
    intro offset hp
    cases hp
  | cons code codes ih =>
    intro offset hp
    rcases List.mem_cons.mp hp with rfl | hp
    · exact ⟨rfl, rfl⟩
    · exact ih hp

/-- The pieces of code that is cut at the limit of a record. -/
def cutChars (i : Nat) (e : Entry) (offset : Nat) (cs : List Char) : List Piece :=
  e.cut i offset ((Packer.chunks (2 * maxTextBytes) cs).map String.ofList)

theorem pieces_eq_cutChars {table : OpcodeTable} {symbols : SymbolTable}
    (h : e.line.Sized table symbols) :
    e.pieces table symbols i = e.cutChars i 0 (e.line.encoding table symbols).toList := by
  rw [pieces, h.units_eq, cutChars]

@[simp] theorem cutChars_nil (offset : Nat) : e.cutChars i offset [] = [] := by
  simp [cutChars, cut]

theorem cutChars_of_ne_nil (offset : Nat) {cs : List Char} (h : cs ≠ []) :
    e.cutChars i offset cs =
      ⟨i, e, offset, String.ofList (cs.take (2 * maxTextBytes))⟩ ::
        e.cutChars i (offset + maxTextBytes) (cs.drop (2 * maxTextBytes)) := by
  rw [cutChars, Packer.chunks_of_ne_nil (by decide) h, List.map_cons, cut, cutChars]

theorem cutChars_eq_nil_iff {offset : Nat} {cs : List Char} :
    e.cutChars i offset cs = [] ↔ cs = [] := by
  constructor
  · intro hnil
    by_contra h
    rw [cutChars_of_ne_nil offset h] at hnil
    cases hnil
  · rintro rfl
    exact cutChars_nil offset

/-- Induction along the cutting: what is left after the first piece is shorter. -/
@[elab_as_elim]
theorem cut_induction {motive : List Char → Prop} (nil : motive [])
    (step : ∀ cs, cs ≠ [] → motive (cs.drop (2 * maxTextBytes)) → motive cs) (cs : List Char) :
    motive cs := by
  induction cs using Packer.chunks.induct (2 * maxTextBytes) with
  | case1 cs h ih => exact step cs h.2 ih
  | case2 cs h =>
    have hnil : cs = [] := Decidable.byContradiction fun hne => h ⟨by decide, hne⟩
    exact hnil ▸ nil

/-- What is known of each piece of code that is cut. -/
structure CutOf (i : Nat) (e : Entry) (offset : Nat) (cs : List Char) (p : Piece) : Prop where
  index_eq : p.index = i
  entry_eq : p.entry = e
  code_ne : p.code ≠ ""
  offset_le : offset ≤ p.offset
  end_le : p.offset + p.size ≤ offset + cs.length / 2
  code_eq : p.code.toList = (cs.drop (2 * (p.offset - offset))).take (2 * maxTextBytes)

private theorem size_take {i : Nat} {e : Entry} {offset : Nat} (cs : List Char) :
    (⟨i, e, offset, String.ofList (cs.take (2 * maxTextBytes))⟩ : Piece).size =
      min (2 * maxTextBytes) cs.length / 2 := by
  rw [Piece.size, unitSize, String.length_ofList, List.length_take]

theorem cutOf_of_mem {cs : List Char} :
    ∀ {offset : Nat} {p : Piece}, p ∈ e.cutChars i offset cs → CutOf i e offset cs p := by
  induction cs using cut_induction with
  | nil =>
    intro offset p hp
    rw [cutChars_nil] at hp
    cases hp
  | step cs h ih =>
    intro offset p hp
    rw [cutChars_of_ne_nil offset h] at hp
    rcases List.mem_cons.mp hp with rfl | hp
    · refine ⟨rfl, rfl, ?_, Nat.le_refl _, ?_, ?_⟩
      · intro hempty
        rw [String.ofList_eq_empty_iff, List.take_eq_nil_iff] at hempty
        exact hempty.elim (by decide) h
      · rw [size_take]
        dsimp only
        omega
      · simp
    · obtain ⟨hi, he, hc, ho, hend, hcode⟩ := ih hp
      have hpos := List.length_pos_iff.mpr h
      rw [List.length_drop] at hend
      refine ⟨hi, he, hc, by omega, ?_, ?_⟩
      · have hne : 0 < p.code.length := by
          rw [← String.length_toList]
          exact List.length_pos_iff.mpr (fun hnil => hc (String.toList_eq_nil_iff.mp hnil))
        have hlen := congrArg List.length hcode
        rw [String.length_toList, List.length_take, List.length_drop, List.length_drop] at hlen
        omega
      · rw [hcode, List.drop_drop]
        congr 2
        omega

theorem full_cutChars (cs : List Char) :
    ∀ offset : Nat, (e.cutChars i offset cs).IsChain
      fun p _ => (maxTextBytes : Int) ≤ unitSize p.code := by
  induction cs using cut_induction with
  | nil =>
    intro offset
    rw [cutChars_nil]
    exact .nil
  | step cs h ih =>
    intro offset
    rw [cutChars_of_ne_nil offset h, List.isChain_cons]
    refine ⟨?_, ih _⟩
    intro q hq
    have hrest : cs.drop (2 * maxTextBytes) ≠ [] := by
      intro hnil
      rw [hnil, cutChars_nil] at hq
      cases hq
    have hlong : 2 * maxTextBytes < cs.length := by
      have := List.length_pos_iff.mpr hrest
      rw [List.length_drop] at this
      omega
    rw [unitSize, String.length_ofList, List.length_take]
    omega

theorem last_cutChars {cs : List Char} :
    ∀ {offset : Nat} {p : Piece}, (e.cutChars i offset cs).getLast? = some p →
      p.offset + p.size = offset + cs.length / 2 := by
  induction cs using cut_induction with
  | nil =>
    intro offset p hp
    rw [cutChars_nil] at hp
    cases hp
  | step cs h ih =>
    intro offset p hp
    rw [cutChars_of_ne_nil offset h, List.getLast?_cons] at hp
    by_cases hrest : cs.drop (2 * maxTextBytes) = []
    · have hshort := List.drop_eq_nil_iff.mp hrest
      rw [hrest, cutChars_nil, List.getLast?_nil, Option.getD_none, Option.some.injEq] at hp
      subst hp
      rw [size_take]
      dsimp only
      omega
    · cases hlast : (e.cutChars i (offset + maxTextBytes) (cs.drop (2 * maxTextBytes))).getLast? with
      | none =>
        rw [List.getLast?_eq_none_iff, cutChars_eq_nil_iff] at hlast
        exact absurd hlast hrest
      | some q =>
        rw [hlast, Option.getD_some, Option.some.injEq] at hp
        subst hp
        have hq := ih hlast
        have hlong := List.length_pos_iff.mpr hrest
        rw [List.length_drop] at hq hlong
        omega

theorem head_cutChars {cs : List Char} {offset : Nat} {p : Piece}
    (hp : p ∈ (e.cutChars i offset cs).head?) : p.offset = offset := by
  by_cases h : cs = []
  · rw [h, cutChars_nil] at hp
    cases hp
  · rw [cutChars_of_ne_nil offset h] at hp
    cases hp
    rfl

/-- Every byte of the code is in one of its pieces. -/
theorem exists_cutChars {cs : List Char} :
    ∀ (offset : Nat) {k : Nat}, k < cs.length / 2 →
      ∃ p ∈ e.cutChars i offset cs, p.offset ≤ offset + k ∧ offset + k < p.offset + p.size := by
  induction cs using cut_induction with
  | nil =>
    intro offset k hk
    simp at hk
  | step cs h ih =>
    intro offset k hk
    rw [cutChars_of_ne_nil offset h]
    by_cases hfirst : k < maxTextBytes
    · refine ⟨_, List.mem_cons_self, by dsimp only; omega, ?_⟩
      rw [size_take]
      dsimp only
      omega
    · have hrest : k - maxTextBytes < (cs.drop (2 * maxTextBytes)).length / 2 := by
        rw [List.length_drop]
        omega
      obtain ⟨p, hp, hle, hlt⟩ := ih (offset + maxTextBytes) hrest
      exact ⟨p, List.mem_cons_of_mem _ hp, by omega, by omega⟩

theorem offset_cutChars {cs : List Char} (h : cs.length ≤ 2 * maxTextBytes) {offset : Nat}
    {p : Piece} (hp : p ∈ e.cutChars i offset cs) : p.offset = offset := by
  by_cases hnil : cs = []
  · rw [hnil, cutChars_nil] at hp
    cases hp
  · rw [cutChars_of_ne_nil offset hnil, List.drop_of_length_le h, cutChars_nil] at hp
    obtain rfl := List.mem_singleton.mp hp
    rfl

theorem pairwise_cutChars (cs : List Char) :
    ∀ offset : Nat, (e.cutChars i offset cs).Pairwise fun p q => p.offset + p.size ≤ q.offset := by
  induction cs using cut_induction with
  | nil =>
    intro offset
    rw [cutChars_nil]
    exact .nil
  | step cs h ih =>
    intro offset
    rw [cutChars_of_ne_nil offset h, List.pairwise_cons]
    refine ⟨?_, ih _⟩
    intro q hq
    have hoffset := (cutOf_of_mem hq).offset_le
    rw [size_take]
    dsimp only
    omega

end Entry

namespace Layout

variable {table : OpcodeTable} {symbols : SymbolTable} {l : Layout} {p : Piece}

theorem isEnd_of_mem_coded {e : Entry} (h : e ∈ l.coded) : e.isEnd = false := by
  simpa using List.mem_takeWhile_imp h

/-- The statements before the first at which code stops are a chain too. -/
theorem Chain.takeWhile {a z : Int} {entries : List Entry} (h : Chain table a entries z) :
    ∃ y ≤ z, Chain table a (entries.takeWhile (!·.isEnd)) y := by
  induction h with
  | stop a => exact ⟨a, Int.le_refl a, .stop a⟩
  | @finish a line hm =>
    have hend : (⟨a, line⟩ : Entry).isEnd = true := by simp [Entry.isEnd, hm]
    exact ⟨a, Int.le_refl a, by simpa [hend] using .stop a⟩
  | @next a z line n rest hm hs tail ih =>
    by_cases hend : (⟨a, line⟩ : Entry).isEnd = true
    · have hz := tail.le
      exact ⟨a, by omega, by simpa [hend] using .stop a⟩
    · obtain ⟨y, hy, hchain⟩ := ih
      refine ⟨y, hy, ?_⟩
      rw [List.takeWhile_cons, if_pos (by simpa using hend)]
      exact .next hm hs hchain

theorem Laid.coded_chain (h : Laid table l) :
    ∃ y ≤ l.endAddress, Chain table l.program.start l.coded y :=
  h.chain.takeWhile

@[simp] theorem piecesFrom_nil (i : Nat) : piecesFrom table symbols i [] = [] := rfl

@[simp] theorem piecesFrom_cons (i : Nat) (e : Entry) (rest : List Entry) :
    piecesFrom table symbols i (e :: rest) =
      e.pieces table symbols i ++ piecesFrom table symbols (i + 1) rest := by
  simp [piecesFrom]

theorem mem_pieces_iff :
    p ∈ l.pieces table ↔
      ∃ (i : Nat) (e : Entry), l.coded[i]? = some e ∧ p ∈ e.pieces table l.symbols i := by
  simp only [pieces, piecesFrom, List.mem_flatMap, Prod.exists, List.mem_zipIdx_iff_getElem?]
  exact exists_comm

theorem mem_pieces (hp : p ∈ l.pieces table) :
    l.coded[p.index]? = some p.entry ∧ p ∈ p.entry.pieces table l.symbols p.index := by
  obtain ⟨i, e, he, hmem⟩ := mem_pieces_iff.mp hp
  obtain ⟨rfl, rfl⟩ := Entry.mem_cut hmem
  exact ⟨he, hmem⟩

end Layout

end SicAssembler
