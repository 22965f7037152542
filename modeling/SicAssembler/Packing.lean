import SicAssembler.Logged
import SicAssembler.Record

/-!
# Packing code into text records

A packer gathers code units in a pending record and closes it when the next unit would not fit,
when it is full, or on request. A record that is refused stays pending.
-/

namespace SicAssembler

/-- The finished records, and the start and units of the pending one. -/
structure Packer where
  limit : Int
  records : List TextRecord
  start : Option Int
  units : List String
  length : Nat
  deriving DecidableEq, Repr

namespace Packer

def empty (limit : Int) : Packer := ⟨limit, [], none, [], 0⟩

def isOpen (p : Packer) : Bool := p.start.isSome

def flush (p : Packer) : Step Packer RecordFault :=
  match p.start with
  | none => .done p
  | some start =>
    match TextRecord.make start p.units with
    | .ok record =>
      ⟨⟨p.limit, p.records ++ [record], none, [], 0⟩, [.textRecord record.start record.length],
        none⟩
    | .error e => .refused p e

/-- Puts a unit into the pending record, or starts one with it. -/
def append (p : Packer) (address : Int) (unit : String) : Packer :=
  { p with
    start := some (p.start.getD address)
    units := p.units ++ [unit]
    length := p.length + unitSize unit }

/-- Closes the pending record if a unit of the given size would not fit. -/
def makeRoom (p : Packer) (size : Nat) : Step Packer RecordFault :=
  if p.isOpen ∧ p.limit < p.length + size then p.flush else .done p

def closeFull (p : Packer) : Step Packer RecordFault :=
  if p.limit ≤ p.length then p.flush else .done p

def add (p : Packer) (address : Int) (unit : String) : Step Packer RecordFault :=
  (p.makeRoom (unitSize unit)).andThen fun p => (p.append address unit).closeFull

/-- Cuts into pieces of `n` characters, of which the last may be shorter. -/
def chunks (n : Nat) (cs : List Char) : List (List Char) :=
  if _h : 0 < n ∧ cs ≠ [] then cs.take n :: chunks n (cs.drop n) else []
termination_by cs.length
decreasing_by
  have := List.length_pos_iff.mpr _h.2
  simp only [List.length_drop]
  omega

@[simp] theorem chunks_nil (n : Nat) : chunks n [] = [] := by
  rw [chunks]
  simp

theorem chunks_of_ne_nil {n : Nat} (hn : 0 < n) {cs : List Char} (h : cs ≠ []) :
    chunks n cs = cs.take n :: chunks n (cs.drop n) := by
  rw [chunks, dif_pos ⟨hn, h⟩]

theorem chunks_of_length_le {n : Nat} {cs : List Char} (h : cs ≠ []) (hl : cs.length ≤ n) :
    chunks n cs = [cs] := by
  have hn : 0 < n := Nat.lt_of_lt_of_le (List.length_pos_iff.mpr h) hl
  rw [chunks_of_ne_nil hn h, List.take_of_length_le hl, List.drop_of_length_le hl, chunks_nil]

theorem flatten_chunks {n : Nat} (hn : 0 < n) (cs : List Char) : (chunks n cs).flatten = cs := by
  induction cs using chunks.induct n with
  | case1 cs h ih => rw [chunks_of_ne_nil hn h.2, List.flatten_cons, ih, List.take_append_drop]
  | case2 cs h =>
    have hc : cs = [] := Decidable.byContradiction fun hne => h ⟨hn, hne⟩
    rw [hc, chunks_nil, List.flatten_nil]

theorem ne_nil_of_mem_chunks {n : Nat} {cs chunk : List Char} :
    chunk ∈ chunks n cs → chunk ≠ [] := by
  induction cs using chunks.induct n with
  | case1 cs h ih =>
    intro hchunk
    rw [chunks_of_ne_nil h.1 h.2] at hchunk
    rcases List.mem_cons.mp hchunk with rfl | hchunk
    · intro hnil
      rcases List.take_eq_nil_iff.mp hnil with hzero | hcs
      · omega
      · exact h.2 hcs
    · exact ih hchunk
  | case2 cs h =>
    intro hchunk
    rw [chunks, dif_neg h] at hchunk
    cases hchunk

theorem length_le_of_mem_chunks {n : Nat} {cs chunk : List Char} :
    chunk ∈ chunks n cs → chunk.length ≤ n := by
  induction cs using chunks.induct n with
  | case1 cs h ih =>
    intro hchunk
    rw [chunks_of_ne_nil h.1 h.2] at hchunk
    rcases List.mem_cons.mp hchunk with rfl | hchunk
    · exact List.length_take_le n cs
    · exact ih hchunk
  | case2 cs h =>
    intro hchunk
    rw [chunks, dif_neg h] at hchunk
    cases hchunk

theorem length_of_mem_dropLast_chunks {n : Nat} {cs chunk : List Char} :
    chunk ∈ (chunks n cs).dropLast → chunk.length = n := by
  induction cs using chunks.induct n with
  | case1 cs h ih =>
    intro hchunk
    rw [chunks_of_ne_nil h.1 h.2] at hchunk
    by_cases hrest : chunks n (cs.drop n) = []
    · rw [hrest] at hchunk
      cases hchunk
    · rw [List.dropLast_cons_of_ne_nil hrest] at hchunk
      rcases List.mem_cons.mp hchunk with rfl | hchunk
      · -- Something is left after the piece, so it was not cut short.
        have hleft : ¬cs.length ≤ n := by
          intro hle
          rw [List.drop_of_length_le hle, chunks_nil] at hrest
          exact hrest rfl
        rw [List.length_take, Nat.min_eq_left]
        omega
      · exact ih hchunk
  | case2 cs h =>
    intro hchunk
    rw [chunks, dif_neg h] at hchunk
    cases hchunk

/-- Adds units that load one limit after another. -/
def addChunks (p : Packer) (address : Int) : List String → Step Packer RecordFault
  | [] => .done p
  | unit :: rest => (p.add address unit).andThen fun q => q.addChunks (address + p.limit) rest

def addBytes (p : Packer) (address : Int) (payload : String) : Step Packer RecordFault :=
  if p.limit = 0 then .refused p .chunkSizeZero
  else p.addChunks address ((chunks (2 * p.limit.toNat) payload.toList).map String.ofList)

end Packer

end SicAssembler
