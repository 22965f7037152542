import SicAssembler.Proofs.Encoding

/-!
# Code that fits in text records

A packer whose pending units are whole bytes refuses no unit that is whole bytes and fits in one
record, as long as addresses have six digits. A statement emits such units if the code of its
mnemonic leaves room for an address.
-/

namespace SicAssembler

namespace Step

variable {σ ε : Type} {P Q : σ → Prop}

/-- An operation that is not refused and leaves a state with a property. -/
def Granted (x : Step σ ε) (P : σ → Prop) : Prop := x.refusal = none ∧ P x.state

theorem granted_done {s : σ} (h : P s) : (done s : Step σ ε).Granted P := ⟨rfl, h⟩

theorem Granted.andThen {x : Step σ ε} {f : σ → Step σ ε} (h : x.Granted P)
    (hf : ∀ s, P s → (f s).Granted Q) : (x.andThen f).Granted Q := by
  obtain ⟨hrefusal, hstate⟩ := hf x.state h.2
  constructor
  · exact refusal_andThen_eq_none.mpr ⟨h.1, hrefusal⟩
  · rw [state_andThen h.1]
    exact hstate

end Step

/-- A code unit that a text record can hold: whole bytes, and not too many of them. -/
def FitsRecord (unit : String) : Prop :=
  Text.isHexBytes unit = true ∧ unitSize unit ≤ maxTextBytes

/-- A code whose instructions fit in a text record: whole bytes that leave room for an address. -/
def FitsInstruction (code : String) : Prop :=
  Text.isHexBytes code = true ∧ code.length + 4 ≤ 2 * maxTextBytes

theorem fitsRecord_instruction_iff {code : String} {a : Int} (h0 : 0 ≤ a)
    (h1 : a ≤ SourceLine.maxOperandAddress) :
    FitsRecord (code ++ Text.hexField 4 a) ↔ FitsInstruction code := by
  have hlt : a < 16 ^ 4 := Int.lt_of_le_of_lt h1 (by decide)
  have hfield := Text.isHexBytes_hexField (by decide : 0 < 4) (by decide) h0 hlt
  rw [FitsRecord, FitsInstruction, Text.isHexBytes_append hfield, unitSize, String.length_append,
    Text.length_hexField (by decide) h0 hlt]
  apply and_congr_right
  intro hcode
  have heven := (Text.isHexBytes_iff.mp hcode).1
  rw [maxTextBytes]
  omega

namespace Packer

/-- A packer that can close its pending record: units of whole bytes, not too many, at an address of
six digits. -/
structure Ready (p : Packer) : Prop where
  limit_eq : p.limit = maxTextBytes
  length_eq : p.length = unitsSize p.units
  length_le : p.length ≤ maxTextBytes
  units_hex : ∀ unit ∈ p.units, Text.isHexBytes unit = true
  idle : p.start = none → p.units = []
  pending : ∀ a, p.start = some a → p.units ≠ [] ∧ 0 ≤ a ∧ a ≤ maxAddress

theorem ready_empty : Ready (empty maxTextBytes) where
  limit_eq := rfl
  length_eq := rfl
  length_le := Nat.zero_le _
  units_hex := by
    intro unit hunit
    cases hunit
  idle _ := rfl
  pending := by
    intro a ha
    cases ha

variable {p : Packer} {address : Int} {unit : String}

theorem flush_ready (h : Ready p) : p.flush.Granted fun q => Ready q ∧ q.length = 0 := by
  cases hs : p.start with
  | none =>
    have hflush : p.flush = .done p := by simp [flush, hs]
    rw [hflush]
    apply Step.granted_done
    exact ⟨h, by rw [h.length_eq, h.idle hs, unitsSize_nil]⟩
  | some a =>
    obtain ⟨hne, hrange⟩ := h.pending a hs
    have hmake : TextRecord.make a p.units = .ok ⟨a, p.units⟩ := by
      apply TextRecord.make_eq_ok.mpr
      refine ⟨rfl, hrange, TextRecord.fault?_eq_none.mpr ⟨hne, h.units_hex, ?_⟩⟩
      rw [TextRecord.length, ← h.length_eq]
      exact h.length_le
    have hflush : p.flush = ⟨⟨p.limit, p.records ++ [⟨a, p.units⟩], none, [], 0⟩,
        [.textRecord a (TextRecord.length ⟨a, p.units⟩)], none⟩ := by
      simp [flush, hs, hmake]
    rw [hflush]
    refine ⟨rfl, ⟨h.limit_eq, rfl, Nat.zero_le _, ?_, fun _ => rfl, ?_⟩, rfl⟩
    · intro unit hunit
      cases hunit
    · intro b hb
      cases hb

theorem makeRoom_ready (h : Ready p) {n : Nat} (hn : n ≤ maxTextBytes) :
    (p.makeRoom n).Granted fun q => Ready q ∧ q.length + n ≤ maxTextBytes := by
  rw [makeRoom, h.limit_eq]
  split
  · obtain ⟨hrefusal, hready, hlength⟩ := flush_ready h
    exact ⟨hrefusal, hready, by omega⟩
  · rename_i hroom
    apply Step.granted_done
    refine ⟨h, ?_⟩
    by_cases hopen : p.isOpen = true
    · have hle : ¬ ((maxTextBytes : Int) < p.length + n) := fun hlt => hroom ⟨hopen, hlt⟩
      omega
    · -- Nothing is pending, so the unit comes first.
      have hidle : p.start = none := by simpa [isOpen] using hopen
      rw [h.length_eq, h.idle hidle, unitsSize_nil]
      omega

theorem append_ready (h : Ready p) (hhex : Text.isHexBytes unit = true)
    (hroom : p.length + unitSize unit ≤ maxTextBytes) (h0 : 0 ≤ address)
    (h1 : address ≤ maxAddress) : Ready (p.append address unit) where
  limit_eq := h.limit_eq
  length_eq := by simp [append, h.length_eq]
  length_le := hroom
  units_hex := by
    intro other hother
    rcases List.mem_append.mp hother with hother | hother
    · exact h.units_hex other hother
    · obtain rfl := List.mem_singleton.mp hother
      exact hhex
  idle := by
    intro hnone
    cases hnone
  pending := by
    intro a ha
    refine ⟨by simp [append], ?_⟩
    cases hs : p.start with
    | none =>
      simp only [append, hs, Option.getD_none, Option.some.injEq] at ha
      exact ha ▸ ⟨h0, h1⟩
    | some b =>
      simp only [append, hs, Option.getD_some, Option.some.injEq] at ha
      exact ha ▸ (h.pending b hs).2

theorem closeFull_ready (h : Ready p) : p.closeFull.Granted Ready := by
  rw [closeFull]
  split
  · obtain ⟨hrefusal, hready, -⟩ := flush_ready h
    exact ⟨hrefusal, hready⟩
  · exact Step.granted_done h

theorem add_ready (h : Ready p) (hunit : FitsRecord unit) (h0 : 0 ≤ address)
    (h1 : address ≤ maxAddress) : (p.add address unit).Granted Ready := by
  apply (makeRoom_ready h hunit.2).andThen
  intro q hq
  exact closeFull_ready (append_ready hq.1 hunit.1 hq.2 h0 h1)

/-- Units that fit are taken one limit after another, as long as their addresses have six digits. -/
theorem addChunks_ready {units : List String} (hunits : ∀ unit ∈ units, FitsRecord unit) :
    ∀ {p : Packer} {address : Int}, Ready p → 0 ≤ address →
      (∀ i < units.length, address + (i * maxTextBytes : Nat) ≤ maxAddress) →
      (p.addChunks address units).Granted Ready := by
  induction units with
  | nil =>
    intro p address h _ _
    exact Step.granted_done h
  | cons unit units ih =>
    intro p address h h0 hmax
    rw [List.forall_mem_cons] at hunits
    have hfirst := hmax 0 (by simp)
    rw [addChunks, h.limit_eq]
    apply (add_ready h hunits.1 h0 (by omega)).andThen
    intro q hq
    apply ih hunits.2 hq (by omega)
    intro i hi
    have hnext := hmax (i + 1) (by simpa using hi)
    rw [Nat.succ_mul] at hnext
    omega

theorem mem_chunks {n : Nat} {cs chunk : List Char} :
    chunk ∈ chunks n cs → chunk.length ≤ n ∧ (∀ c ∈ chunk, c ∈ cs) ∧
      (n % 2 = 0 → cs.length % 2 = 0 → chunk.length % 2 = 0) := by
  induction cs using chunks.induct n with
  | case1 cs h ih =>
    intro hchunk
    rw [chunks_of_ne_nil h.1 h.2] at hchunk
    rcases List.mem_cons.mp hchunk with rfl | hchunk
    · refine ⟨List.length_take_le n cs, fun c hc => List.mem_of_mem_take hc, ?_⟩
      intro hn hcs
      rw [List.length_take]
      omega
    · obtain ⟨hlength, hmem, heven⟩ := ih hchunk
      refine ⟨hlength, fun c hc => List.mem_of_mem_drop (hmem c hc), ?_⟩
      intro hn hcs
      apply heven hn
      rw [List.length_drop]
      omega
  | case2 cs h =>
    intro hchunk
    rw [chunks, dif_neg h] at hchunk
    cases hchunk

theorem mul_lt_of_lt_length_chunks {n : Nat} {cs : List Char} :
    ∀ {i : Nat}, i < (chunks n cs).length → i * n < cs.length := by
  induction cs using chunks.induct n with
  | case1 cs h ih =>
    intro i hi
    rw [chunks_of_ne_nil h.1 h.2, List.length_cons] at hi
    cases i with
    | zero =>
      rw [Nat.zero_mul]
      exact List.length_pos_iff.mpr h.2
    | succ i =>
      have hrest := ih (Nat.lt_of_succ_lt_succ hi)
      rw [List.length_drop] at hrest
      rw [Nat.succ_mul]
      omega
  | case2 cs h =>
    intro i hi
    rw [chunks, dif_neg h] at hi
    cases hi

/-- Whole bytes of any length are taken, as long as they end at an address of six digits. -/
theorem addBytes_ready (h : Ready p) {payload : String} (hhex : Text.isHexBytes payload = true)
    (h0 : 0 ≤ address) (h1 : address + unitSize payload ≤ maxAddress) :
    (p.addBytes address payload).Granted Ready := by
  obtain ⟨heven, hdigits⟩ := Text.isHexBytes_iff.mp hhex
  rw [addBytes, h.limit_eq, if_neg (by decide)]
  apply addChunks_ready _ h h0
  · intro i hi
    rw [List.length_map] at hi
    have hinside := mul_lt_of_lt_length_chunks hi
    rw [String.length_toList, Int.toNat_natCast] at hinside
    rw [unitSize] at h1
    have hhalf : i * (2 * maxTextBytes) = 2 * (i * maxTextBytes) := Nat.mul_left_comm i 2 _
    omega
  · intro unit hunit
    obtain ⟨chunk, hchunk, rfl⟩ := List.mem_map.mp hunit
    obtain ⟨hlength, hmem, hchunkEven⟩ := mem_chunks hchunk
    rw [Int.toNat_natCast] at hlength hchunkEven
    rw [FitsRecord, Text.isHexBytes_iff, unitSize, String.length_ofList, String.toList_ofList]
    refine ⟨⟨?_, fun c hc => hdigits c (hmem c hc)⟩, by omega⟩
    apply hchunkEven (Nat.mul_mod_right 2 _)
    rw [String.length_toList]
    exact heven

end Packer

/-- What is emitted on `n` addresses and fits in text records. -/
def Emission.Fits (n : Nat) : Emission → Prop
  | .unit code => FitsRecord code
  | .bytes payload => Text.isHexBytes payload = true ∧ unitSize payload ≤ n
  | .gap => True
  | .nothing => True

theorem Packer.place_ready {p : Packer} {address : Int} {em : Emission} {n : Nat} (h : Ready p)
    (hem : em.Fits n) (h0 : 0 ≤ address) (h1 : address + n ≤ maxAddress) :
    (p.place address em).Granted Ready := by
  cases em with
  | unit code => exact add_ready h hem h0 (by omega)
  | bytes payload =>
    rw [place]
    split
    · exact Step.granted_done h
    · exact addBytes_ready h hem.1 h0 (by have := hem.2; omega)
  | gap =>
    obtain ⟨hrefusal, hready, -⟩ := flush_ready h
    exact ⟨hrefusal, hready⟩
  | nothing => exact Step.granted_done h

namespace SourceLine

variable {table : OpcodeTable} {symbols : SymbolTable} {undefinedSymbols : UndefinedSymbols}
  {l : SourceLine}

private theorem fitsRecord_word {w : String} (h : l.word = .ok w) : FitsRecord w := by
  obtain ⟨rfl, hlength⟩ := word_eq_ok h
  constructor
  · apply Text.isHexBytes_hexField (by decide) (by decide)
    · exact Int.emod_nonneg _ (by decide)
    · exact Int.emod_lt_of_pos _ (by decide)
  · rw [unitSize, hlength]
    decide

theorem isHexBytes_code? {b : ByteLiteral} {s : String}
    (hb : b.kind = .hexadecimal → Text.isHexBytes b.payload = true) (h : b.code? = some s) :
    Text.isHexBytes s = true := by
  obtain ⟨kind, payload⟩ := b
  cases kind with
  | characters =>
    obtain ⟨bs, -, rfl⟩ := Option.map_eq_some_iff.mp h
    exact Text.isHexBytes_hexOfBytes bs
  | hexadecimal =>
    cases h
    exact Text.isHexBytes_upper (hb rfl)

private theorem fits_byte {s : String} {n : Nat} (hc : table.get? l.mnemonic = none)
    (hm : l.mnemonic = "BYTE") (hb : ByteLiteral.encode l = .ok s) (hn : l.size table = .ok n) :
    Text.isHexBytes s = true ∧ unitSize s ≤ n := by
  have hcontains : table.contains l.mnemonic = false := by simp [Dictionary.contains, hc]
  obtain ⟨b, hread, hcode⟩ := encode_eq_ok hb
  have hsize : n = b.payload.length := by
    simp only [size_of_byte hcontains hm, ofLine_of_read hread, Except.map, Except.ok.injEq] at hn
    exact hn.symm
  have hlength := code?_length hcode
  constructor
  · exact isHexBytes_code? (read_hexadecimal hread) hcode
  · rw [unitSize, hsize, hlength]
    split
    · omega
    · omega

theorem Emits.fits {em : Emission} {n : Nat} (h : Emits table symbols undefinedSymbols l em)
    (hcode : ∀ code, table.get? l.mnemonic = some code → FitsInstruction code)
    (h0 : 0 ≤ l.operandValue symbols) (hn : l.size table = .ok n) : em.Fits n := by
  cases h with
  | instruction hc ha =>
    obtain ⟨rfl, hmax, -⟩ := operandAddress_eq_ok ha
    exact (fitsRecord_instruction_iff h0 hmax).mpr (hcode _ hc)
  | word hc hm hw => exact fitsRecord_word hw
  | byte hc hm hb => exact fits_byte hc hm hb hn
  | gap hc hm => trivial
  | nothing hc hw hb hr => trivial

end SourceLine

end SicAssembler
