import SicAssembler.ObjectProgram
import SicAssembler.Proofs.HexText

/-!
# The code of a statement

The code of a statement is a function of the table, the finished symbol table and the statement. It
is what the statement emits whenever it emits anything, and its length is the size that the layout
gives to the statement, except that a hexadecimal literal takes two addresses for each of its
bytes.
-/

namespace SicAssembler

/-- Every code of a table is two hexadecimal digits, as in the standard one. -/
def OpcodeTable.HasByteCodes (table : OpcodeTable) : Prop :=
  ∀ e ∈ table.entries, e.2.length = 2 ∧ e.2.toList.all Text.isHexDigit = true

instance (table : OpcodeTable) : Decidable table.HasByteCodes :=
  inferInstanceAs (Decidable (∀ e ∈ table.entries, _))

theorem OpcodeTable.HasByteCodes.length_eq {table : OpcodeTable} (h : table.HasByteCodes)
    {mnemonic code : String} (hc : table.get? mnemonic = some code) : code.length = 2 := by
  obtain ⟨before, after, he, -⟩ := List.lookup_eq_some_iff.mp hc
  exact (h (mnemonic, code) (by simp [he])).1

namespace SourceLine

/-- The address that an instruction holds: that of its operand, or zero for an operand that is left
out or that no label defines. -/
def operandValue (symbols : SymbolTable) (l : SourceLine) : Int :=
  if l.operand = absent then 0 else (symbols.get? l.operand).getD 0

/-- The code of a byte literal, or nothing for an operand that is not one. -/
def literalCode (l : SourceLine) : String :=
  match ByteLiteral.read l.operand with
  | .ok b => b.code?.getD ""
  | .error _ => ""

/-- The code of a statement in hexadecimal digits. -/
def encoding (table : OpcodeTable) (symbols : SymbolTable) (l : SourceLine) : String :=
  match table.get? l.mnemonic with
  | some code => code ++ Text.hexField 4 (l.operandValue symbols)
  | none =>
    if l.mnemonic = "WORD" then Text.hexField 6 ((Text.decimal? l.operand).getD 0 % 0x1000000)
    else if l.mnemonic = "BYTE" then l.literalCode
    else ""

/-- The units of a statement: the code of an instruction is one unit, other code is cut into pieces
that fit in a record. -/
def units (table : OpcodeTable) (symbols : SymbolTable) (l : SourceLine) : List String :=
  if table.contains l.mnemonic then [l.encoding table symbols]
  else (Packer.chunks (2 * maxTextBytes) (l.encoding table symbols).toList).map String.ofList

/-- Whether a statement only reserves storage. -/
def reserves (table : OpcodeTable) (l : SourceLine) : Bool :=
  !table.contains l.mnemonic && (l.mnemonic = "RESW" || l.mnemonic = "RESB")

/-- The bytes of a hexadecimal literal; any other statement has none. -/
def hexLiteralBytes (table : OpcodeTable) (l : SourceLine) : Nat :=
  if table.contains l.mnemonic then 0
  else if l.mnemonic = "BYTE" then
    match ByteLiteral.read l.operand with
    | .ok ⟨.hexadecimal, payload⟩ => payload.length / 2
    | _ => 0
  else 0

variable {table : OpcodeTable} {symbols : SymbolTable} {undefinedSymbols : UndefinedSymbols}
  {l : SourceLine}

theorem encoding_of_get? {code : String} (h : table.get? l.mnemonic = some code) :
    l.encoding table symbols = code ++ Text.hexField 4 (l.operandValue symbols) := by
  simp [encoding, h]

theorem encoding_of_word (h : table.get? l.mnemonic = none) (hw : l.mnemonic = "WORD") :
    l.encoding table symbols =
      Text.hexField 6 ((Text.decimal? l.operand).getD 0 % 0x1000000) := by
  rw [encoding, h]
  exact if_pos hw

theorem encoding_of_byte (h : table.get? l.mnemonic = none) (hb : l.mnemonic = "BYTE") :
    l.encoding table symbols = l.literalCode := by
  rw [encoding, h]
  simp [hb]

theorem encoding_of_other (h : table.get? l.mnemonic = none) (hw : l.mnemonic ≠ "WORD")
    (hb : l.mnemonic ≠ "BYTE") : l.encoding table symbols = "" := by
  rw [encoding, h]
  simp [hw, hb]

theorem units_of_contains_eq_false (h : table.contains l.mnemonic = false) :
    l.units table symbols =
      (Packer.chunks (2 * maxTextBytes) (l.encoding table symbols).toList).map String.ofList := by
  simp [units, h]

theorem units_of_encoding_eq_empty (h : l.encoding table symbols = "") :
    table.contains l.mnemonic = false → l.units table symbols = [] := by
  intro hc
  simp [units_of_contains_eq_false hc, h]

theorem units_of_length_le (h0 : l.encoding table symbols ≠ "")
    (h : (l.encoding table symbols).length ≤ 2 * maxTextBytes) :
    l.units table symbols = [l.encoding table symbols] := by
  unfold units
  split
  · rfl
  · have hne : (l.encoding table symbols).toList ≠ [] := by
      intro hnil
      exact h0 (String.toList_eq_nil_iff.mp hnil)
    rw [← String.length_toList] at h
    simp [Packer.chunks_of_length_le hne h]

theorem size_of_byte (hc : table.contains l.mnemonic = false) (hm : l.mnemonic = "BYTE") :
    l.size table = (ByteLiteral.ofLine l).map (·.payload.length) := by
  have hw : ¬((table.contains l.mnemonic || decide (l.mnemonic = "WORD")) = true) := by
    rw [hc, hm]
    decide
  rw [size, if_neg hw, if_pos hm]

theorem hexLiteralBytes_of_byte (hc : table.contains l.mnemonic = false)
    (hm : l.mnemonic = "BYTE") {b : ByteLiteral} (hb : ByteLiteral.read l.operand = .ok b) :
    l.hexLiteralBytes table = if b.kind = .hexadecimal then b.payload.length / 2 else 0 := by
  obtain ⟨kind, payload⟩ := b
  rw [hexLiteralBytes, if_neg (by simp [hc]), if_pos hm, hb]
  cases kind <;> rfl

theorem operandAddress_eq_ok {a : Int}
    (h : (l.operandAddress symbols undefinedSymbols).result = .ok a) :
    a = l.operandValue symbols ∧ a ≤ maxOperandAddress ∧
      (undefinedSymbols = .strict → l.operand ≠ absent → (symbols.get? l.operand).isSome) := by
  unfold operandAddress at h
  unfold operandValue
  split at h
  · rename_i habsent
    cases h
    exact ⟨by simp [habsent], by decide, fun _ hne => absurd habsent hne⟩
  · rename_i habsent
    split at h
    · cases h
    · rename_i hnone
      cases h
      exact ⟨by simp [habsent, hnone], by decide, fun hs => by cases hs⟩
    · rename_i address hsome
      split at h
      · cases h
      · rename_i hle
        cases h
        exact ⟨by simp [habsent, hsome], Int.not_lt.mp hle, fun _ _ => by simp [hsome]⟩

theorem word_eq_ok {w : String} (h : l.word = .ok w) :
    w = Text.hexField 6 ((Text.decimal? l.operand).getD 0 % 0x1000000) ∧ w.length = 6 := by
  unfold word at h
  split at h
  · cases h
  · rename_i value hv
    split at h
    · cases h
      have h0 : 0 ≤ value % 0x1000000 := Int.emod_nonneg _ (by decide)
      have h1 : value % 0x1000000 < 16 ^ 6 := Int.emod_lt_of_pos _ (by decide)
      exact ⟨by simp [hv], Text.length_hexField (by decide) h0 h1⟩
    · cases h

theorem ofLine_of_read {b : ByteLiteral} (h : ByteLiteral.read l.operand = .ok b) :
    ByteLiteral.ofLine l = .ok b := by
  rw [ByteLiteral.ofLine, h]
  rfl

theorem encode_eq_ok {s : String} (h : ByteLiteral.encode l = .ok s) :
    ∃ b, ByteLiteral.read l.operand = .ok b ∧ b.code? = some s := by
  cases hb : ByteLiteral.read l.operand with
  | error e =>
    rw [ByteLiteral.encode, ByteLiteral.ofLine, hb] at h
    cases h
  | ok b =>
    rw [ByteLiteral.encode, ofLine_of_read hb] at h
    dsimp only at h
    cases hc : b.code? with
    | none =>
      rw [hc] at h
      cases h
    | some code =>
      rw [hc] at h
      cases h
      exact ⟨b, rfl, hc⟩

/-- What a statement may emit: an instruction or a word as one unit, the bytes of a literal, a gap for
reserved storage, or nothing. -/
inductive Emits (table : OpcodeTable) (symbols : SymbolTable) (undefinedSymbols : UndefinedSymbols)
    (l : SourceLine) : Emission → Prop where
  | instruction {code : String} {a : Int} (hc : table.get? l.mnemonic = some code)
      (ha : (l.operandAddress symbols undefinedSymbols).result = .ok a) :
      Emits table symbols undefinedSymbols l (.unit (code ++ Text.hexField 4 a))
  | word {w : String} (hc : table.get? l.mnemonic = none) (hm : l.mnemonic = "WORD")
      (hw : l.word = .ok w) : Emits table symbols undefinedSymbols l (.unit w)
  | byte {s : String} (hc : table.get? l.mnemonic = none) (hm : l.mnemonic = "BYTE")
      (hb : ByteLiteral.encode l = .ok s) : Emits table symbols undefinedSymbols l (.bytes s)
  | gap (hc : table.get? l.mnemonic = none) (hm : l.mnemonic = "RESW" ∨ l.mnemonic = "RESB") :
      Emits table symbols undefinedSymbols l .gap
  | nothing (hc : table.get? l.mnemonic = none) (hw : l.mnemonic ≠ "WORD")
      (hb : l.mnemonic ≠ "BYTE") (hr : ¬(l.mnemonic = "RESW" ∨ l.mnemonic = "RESB")) :
      Emits table symbols undefinedSymbols l .nothing

theorem emits_of_emission {em : Emission}
    (h : (l.emission table symbols undefinedSymbols).result = .ok em) :
    Emits table symbols undefinedSymbols l em := by
  unfold emission at h
  cases hc : table.get? l.mnemonic with
  | some code =>
    rw [hc] at h
    simp only [Logged.result_bind_eq_ok, Logged.result_pure, Except.ok.injEq] at h
    obtain ⟨a, ha, rfl⟩ := h
    exact .instruction hc ha
  | none =>
    rw [hc] at h
    dsimp only at h
    split at h
    · rename_i hm
      cases hw : l.word with
      | error d => simp [hw, Except.map] at h
      | ok w =>
        simp only [hw, Logged.result_ofExcept, Except.map, Except.ok.injEq] at h
        exact h ▸ .word hc hm hw
    · rename_i hword
      split at h
      · rename_i hm
        cases hb : ByteLiteral.encode l with
        | error d => simp [hb, Except.map] at h
        | ok s =>
          simp only [hb, Logged.result_ofExcept, Except.map, Except.ok.injEq] at h
          exact h ▸ .byte hc hm hb
      · rename_i hbyte
        split at h
        · rename_i hr
          cases h
          exact .gap hc hr
        · rename_i hr
          cases h
          exact .nothing hc hword hbyte hr

theorem encoding_of_operandAddress {code : String} {a : Int}
    (hc : table.get? l.mnemonic = some code)
    (ha : (l.operandAddress symbols undefinedSymbols).result = .ok a) :
    l.encoding table symbols = code ++ Text.hexField 4 a := by
  rw [encoding_of_get? hc, (operandAddress_eq_ok ha).1]

theorem encoding_of_word_eq_ok {w : String} (hc : table.get? l.mnemonic = none)
    (hm : l.mnemonic = "WORD") (hw : l.word = .ok w) : l.encoding table symbols = w := by
  rw [encoding_of_word hc hm, (word_eq_ok hw).1]

theorem encoding_of_encode_eq_ok {s : String} (hc : table.get? l.mnemonic = none)
    (hm : l.mnemonic = "BYTE") (hb : ByteLiteral.encode l = .ok s) :
    l.encoding table symbols = s := by
  obtain ⟨b, hread, hcode⟩ := encode_eq_ok hb
  rw [encoding_of_byte hc hm]
  simp [literalCode, hread, hcode]

theorem encoding_of_reserving (hc : table.get? l.mnemonic = none)
    (hm : l.mnemonic = "RESW" ∨ l.mnemonic = "RESB") : l.encoding table symbols = "" := by
  apply encoding_of_other hc
  · rcases hm with hm | hm <;> rw [hm] <;> decide
  · rcases hm with hm | hm <;> rw [hm] <;> decide

theorem join_units : String.join (l.units table symbols) = l.encoding table symbols := by
  unfold units
  split
  · simp
  · apply String.toList_injective
    rw [String.toList_join, List.flatMap_map]
    simp only [String.toList_ofList, List.flatMap_id']
    exact Packer.flatten_chunks (by decide) _

theorem ne_empty_of_mem_units {unit : String} (h : unit ∈ l.units table symbols) : unit ≠ "" := by
  unfold units at h
  split at h
  · rename_i hc
    obtain ⟨code, hcode⟩ := Option.isSome_iff_exists.mp hc
    rw [List.mem_singleton.mp h, encoding_of_get? hcode]
    simp [Text.hexField_ne_empty]
  · obtain ⟨chunk, hchunk, rfl⟩ := List.mem_map.mp h
    rw [Ne, String.ofList_eq_empty_iff]
    exact Packer.ne_nil_of_mem_chunks hchunk

theorem code?_length {b : ByteLiteral} {s : String} (h : b.code? = some s) :
    s.length = if b.kind = .characters then 2 * b.payload.length else b.payload.length := by
  unfold ByteLiteral.code? at h
  cases hk : b.kind with
  | characters =>
    rw [hk] at h
    simp only [Option.map_eq_some_iff, ByteLiteral.singleBytes?] at h
    obtain ⟨bs, hbs, rfl⟩ := h
    split at hbs
    · cases hbs
      rw [Text.length_hexOfBytes, List.length_map, String.length_toList, if_pos rfl]
    · cases hbs
  | hexadecimal =>
    rw [hk] at h
    cases h
    simp

theorem read_hexadecimal {operand : String} {b : ByteLiteral}
    (h : ByteLiteral.read operand = .ok b) (hk : b.kind = .hexadecimal) :
    Text.isHexBytes b.payload = true := by
  unfold ByteLiteral.read at h
  split at h
  · split at h
    · dsimp only at h
      split at h
      · cases h
        cases hk
      · split at h
        · rename_i hhex
          cases h
          exact hhex
        · cases h
      · cases h
    · cases h
  · cases h

/-- How the code of a statement and its size in the layout go together. A hexadecimal literal takes
as many addresses more as it has bytes. -/
structure Sized (table : OpcodeTable) (symbols : SymbolTable) (l : SourceLine) : Prop where
  even : (l.encoding table symbols).length % 2 = 0
  hex_le : l.hexLiteralBytes table ≤ unitSize (l.encoding table symbols)
  size_eq : ∀ n, l.size table = .ok n → l.reserves table = false →
    n = unitSize (l.encoding table symbols) + l.hexLiteralBytes table
  units_eq : l.units table symbols =
    (Packer.chunks (2 * maxTextBytes) (l.encoding table symbols).toList).map String.ofList
  short : table.contains l.mnemonic = false ∧ l.mnemonic = "BYTE" ∨
    (l.encoding table symbols).length ≤ 2 * maxTextBytes

private theorem sized_instruction {code : String} {a : Int} (hcodes : table.HasByteCodes)
    (h0 : 0 ≤ l.operandValue symbols) (hc : table.get? l.mnemonic = some code)
    (ha : (l.operandAddress symbols undefinedSymbols).result = .ok a) :
    Sized table symbols l := by
  have hcontains : table.contains l.mnemonic = true := by simp [Dictionary.contains, hc]
  obtain ⟨rfl, hmax, -⟩ := operandAddress_eq_ok ha
  have hfield : (Text.hexField 4 (l.operandValue symbols)).length = 4 := by
    apply Text.length_hexField (by decide) h0
    unfold maxOperandAddress at hmax
    omega
  have hlen : (l.encoding table symbols).length = 6 := by
    rw [encoding_of_get? hc, String.length_append, hcodes.length_eq hc, hfield]
  have hhex : l.hexLiteralBytes table = 0 := by simp [hexLiteralBytes, hcontains]
  have hshort : (l.encoding table symbols).length ≤ 2 * maxTextBytes := by
    rw [hlen]
    decide
  refine ⟨by rw [hlen], by omega, ?_, ?_, .inr hshort⟩
  · intro n hn _
    simp only [size, hcontains, Bool.true_or, if_true, Except.ok.injEq] at hn
    rw [← hn, hhex, unitSize, hlen]
    rfl
  · have hne : (l.encoding table symbols).toList ≠ [] := by
      intro hnil
      rw [← String.length_toList, hnil] at hlen
      cases hlen
    rw [← String.length_toList] at hshort
    simp [units, hcontains, Packer.chunks_of_length_le hne hshort]

private theorem sized_word {w : String} (hc : table.get? l.mnemonic = none)
    (hm : l.mnemonic = "WORD") (hw : l.word = .ok w) : Sized table symbols l := by
  have hcontains : table.contains l.mnemonic = false := by simp [Dictionary.contains, hc]
  have he : l.encoding table symbols = w := encoding_of_word_eq_ok hc hm hw
  have hlen := (word_eq_ok hw).2
  have hhex : l.hexLiteralBytes table = 0 := by simp [hexLiteralBytes, hm]
  have hshort : (l.encoding table symbols).length ≤ 2 * maxTextBytes := by
    rw [he, hlen]
    decide
  refine ⟨by rw [he, hlen], by omega, ?_, units_of_contains_eq_false hcontains, .inr hshort⟩
  intro n hn _
  simp only [size, hm, decide_true, Bool.or_true, if_true, Except.ok.injEq] at hn
  rw [← hn, hhex, unitSize, he, hlen]
  rfl

private theorem sized_byte {s : String} (hc : table.get? l.mnemonic = none)
    (hm : l.mnemonic = "BYTE") (hb : ByteLiteral.encode l = .ok s) : Sized table symbols l := by
  have hcontains : table.contains l.mnemonic = false := by simp [Dictionary.contains, hc]
  obtain ⟨⟨kind, payload⟩, hread, hcode⟩ := encode_eq_ok hb
  have hlen := code?_length hcode
  have he : l.encoding table symbols = s := encoding_of_encode_eq_ok hc hm hb
  have hhex := hexLiteralBytes_of_byte hcontains hm hread
  have hn : ∀ n, l.size table = .ok n → n = payload.length := by
    intro n hn
    simp only [size_of_byte hcontains hm, ofLine_of_read hread, Except.map, Except.ok.injEq] at hn
    exact hn.symm
  cases kind with
  | characters =>
    simp only [if_true, reduceCtorEq, if_false] at hlen hhex
    refine ⟨by rw [he, hlen]; omega, by omega, ?_, units_of_contains_eq_false hcontains,
      .inl ⟨hcontains, hm⟩⟩
    intro n hsize _
    rw [hn n hsize, hhex, unitSize, he, hlen]
    omega
  | hexadecimal =>
    have hbytes := read_hexadecimal hread rfl
    have heven : payload.length % 2 = 0 := by
      simp only [Text.isHexBytes, Bool.and_eq_true, beq_iff_eq] at hbytes
      rw [← String.length_toList]
      exact hbytes.1
    simp only [if_true, reduceCtorEq, if_false] at hlen hhex
    have hle : l.hexLiteralBytes table ≤ unitSize (l.encoding table symbols) := by
      apply Nat.le_of_eq
      rw [hhex, unitSize, he, hlen]
    refine ⟨by rw [he, hlen, heven], hle, ?_, units_of_contains_eq_false hcontains,
      .inl ⟨hcontains, hm⟩⟩
    intro n hsize _
    rw [hn n hsize, hhex, unitSize, he, hlen]
    omega

private theorem sized_other (hc : table.get? l.mnemonic = none) (hw : l.mnemonic ≠ "WORD")
    (hb : l.mnemonic ≠ "BYTE") : Sized table symbols l := by
  have hcontains : table.contains l.mnemonic = false := by simp [Dictionary.contains, hc]
  have he : l.encoding table symbols = "" := encoding_of_other hc hw hb
  have hhex : l.hexLiteralBytes table = 0 := by simp [hexLiteralBytes, hb]
  refine ⟨by simp [he], by omega, ?_, units_of_contains_eq_false hcontains, .inr (by simp [he])⟩
  intro n hn hr
  simp only [reserves, hcontains, Bool.not_false, Bool.true_and, Bool.or_eq_false_iff,
    decide_eq_false_iff_not] at hr
  simp only [size, hcontains, hw, hb, hr, decide_false, Bool.or_self, Bool.false_eq_true, if_false,
    Except.ok.injEq] at hn
  rw [← hn, he, hhex]
  rfl

/-- A statement that emits something is as long as its code says. -/
theorem Emits.sized {em : Emission} (h : Emits table symbols undefinedSymbols l em)
    (hcodes : table.HasByteCodes) (h0 : 0 ≤ l.operandValue symbols) : Sized table symbols l := by
  cases h with
  | instruction hc ha => exact sized_instruction hcodes h0 hc ha
  | word hc hm hw => exact sized_word hc hm hw
  | byte hc hm hb => exact sized_byte hc hm hb
  | gap hc hm =>
    apply sized_other hc
    · rcases hm with hm | hm <;> rw [hm] <;> decide
    · rcases hm with hm | hm <;> rw [hm] <;> decide
  | nothing hc hw hb hr => exact sized_other hc hw hb

end SourceLine

end SicAssembler
