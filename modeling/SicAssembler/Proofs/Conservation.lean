import SicAssembler.Proofs.Provenance

/-!
# No code is lost, doubled or reordered

The units of the text records, one after another, are the codes of the entries in the order of the
listing. Operands stand for the addresses in the finished symbol table, so a label may be used
before the line that defines it.
-/

namespace SicAssembler

variable {table : OpcodeTable} {undefinedSymbols : UndefinedSymbols}

/-- What the code of a statement consists of in an assembly that succeeded: an address field has
four digits and holds the address of a label under the strict policy, a word has six digits, and a
literal can be encoded. -/
structure SourceLine.Encoded (table : OpcodeTable) (symbols : SymbolTable)
    (undefinedSymbols : UndefinedSymbols) (l : SourceLine) : Prop where
  address_digits : table.contains l.mnemonic = true →
    (Text.hexField 4 (l.operandValue symbols)).length = 4
  operand_defined : table.contains l.mnemonic = true → undefinedSymbols = .strict →
    l.operand ≠ absent → (symbols.get? l.operand).isSome
  word : table.contains l.mnemonic = false → l.mnemonic = "WORD" →
    l.word = .ok (l.encoding table symbols) ∧ (l.encoding table symbols).length = 6
  byte : table.contains l.mnemonic = false → l.mnemonic = "BYTE" →
    ByteLiteral.encode l = .ok (l.encoding table symbols)

namespace SourceLine

variable {symbols : SymbolTable} {l : SourceLine}

private theorem encoded_instruction {a : Int} (hc : table.contains l.mnemonic = true)
    (h0 : 0 ≤ l.operandValue symbols)
    (ha : (l.operandAddress symbols undefinedSymbols).result = .ok a) :
    l.Encoded table symbols undefinedSymbols := by
  obtain ⟨rfl, hmax, hstrict⟩ := operandAddress_eq_ok ha
  have hdigits : (Text.hexField 4 (l.operandValue symbols)).length = 4 := by
    apply Text.length_hexField (by decide) h0
    unfold maxOperandAddress at hmax
    omega
  refine ⟨fun _ => hdigits, fun _ => hstrict, ?_, ?_⟩
  · intro hf
    rw [hc] at hf
    cases hf
  · intro hf
    rw [hc] at hf
    cases hf

private theorem encoded_directive (hc : table.get? l.mnemonic = none)
    (hw : l.mnemonic = "WORD" → ∃ w, l.word = .ok w)
    (hb : l.mnemonic = "BYTE" → ∃ s, ByteLiteral.encode l = .ok s) :
    l.Encoded table symbols undefinedSymbols := by
  have hcontains : table.contains l.mnemonic = false := by simp [Dictionary.contains, hc]
  refine ⟨?_, ?_, ?_, ?_⟩
  · intro ht
    rw [hcontains] at ht
    cases ht
  · intro ht
    rw [hcontains] at ht
    cases ht
  · intro _ hm
    obtain ⟨w, hword⟩ := hw hm
    rw [encoding_of_word_eq_ok hc hm hword]
    exact ⟨hword, (word_eq_ok hword).2⟩
  · intro _ hm
    obtain ⟨s, hbyte⟩ := hb hm
    rw [encoding_of_encode_eq_ok hc hm hbyte, hbyte]

theorem Emits.encoded {em : Emission} (h : Emits table symbols undefinedSymbols l em)
    (h0 : 0 ≤ l.operandValue symbols) : l.Encoded table symbols undefinedSymbols := by
  cases h with
  | instruction hc ha => exact encoded_instruction (by simp [Dictionary.contains, hc]) h0 ha
  | word hc hm hw =>
    apply encoded_directive hc (fun _ => ⟨_, hw⟩)
    intro hb
    rw [hm] at hb
    exact absurd hb (by decide)
  | byte hc hm hb =>
    apply encoded_directive hc ?_ (fun _ => ⟨_, hb⟩)
    intro hw
    rw [hm] at hw
    exact absurd hw (by decide)
  | gap hc hm =>
    apply encoded_directive hc
    · intro hw
      rw [hw] at hm
      exact absurd hm (by decide)
    · intro hb
      rw [hb] at hm
      exact absurd hm (by decide)
  | nothing hc hw hb hr =>
    exact encoded_directive hc (fun hm => absurd hm hw) (fun hm => absurd hm hb)

end SourceLine

namespace Layout

theorem join_piecesFrom (table : OpcodeTable) (symbols : SymbolTable) (entries : List Entry) :
    ∀ i : Nat, String.join ((piecesFrom table symbols i entries).map Piece.code) =
      String.join (entries.map fun e => e.line.encoding table symbols) := by
  induction entries with
  | nil =>
    intro i
    rfl
  | cons e rest ih =>
    intro i
    rw [piecesFrom_cons, List.map_append, String.join_append, ih (i + 1), Entry.pieces,
      Entry.map_code_cut, SourceLine.join_units, List.map_cons, String.join_cons]

end Layout

/-- The units of an object program, one after another, are the codes of the entries in listing
order. The symbols are the finished ones: each name stands for the last entry that defines it. -/
theorem units_eq_encodings {policy : Policy} {filename : String} {lines : List String}
    {l : Layout} {records : List Record}
    (hl : (Layout.ofLines table policy filename lines).result = .ok l)
    (hr : (ObjectProgram.ofLayout table policy l).result = .ok records) :
    String.join ((Record.texts records).flatMap TextRecord.units) =
        String.join (l.coded.map fun e => e.line.encoding table l.symbols) ∧
      (∀ name, l.symbols.get? name = Layout.lastDefined name l.entries) ∧
      ∀ e ∈ l.coded, e.line.Encoded table l.symbols policy.undefinedSymbols := by
  have hlaid := Layout.ofLines_laid hl
  have hpacked := ObjectProgram.packed_of_ofLayout hlaid hr
  refine ⟨?_, hlaid.symbols_get?, ?_⟩
  · have hunits : (Record.texts records).flatMap TextRecord.units =
        (l.pieces table).map Piece.code := by
      rw [hpacked.texts_eq, ← Layout.flatten_groups, List.map_flatten, List.flatMap_map]
      rfl
    rw [hunits]
    exact Layout.join_piecesFrom table l.symbols l.coded 0
  · intro e he
    obtain ⟨em, hem⟩ := hpacked.emission e he
    exact (SourceLine.emits_of_emission hem).encoded (hlaid.operandValue_nonneg e.line)

def wordAsInstruction : OpcodeTable := ⟨[("LDA", "00"), ("WORD", "18")]⟩

/-- A label that is used before it is defined and then defined again, and an operand that ends the
code before the listing ends. -/
def redefinedLabelProgram : List String :=
  ["P START 1000", "- LDA B", "A WORD B", "B BYTE X'F1'", "B BYTE C'EOF'", "- LDA -", "- RESW 1",
    "- LDA END", "- LDA A", "- END P"]

theorem units_of_redefined_label :
    ∃ l records,
      (Layout.ofLines wordAsInstruction {} "<input>" redefinedLabelProgram).result = .ok l ∧
      (ObjectProgram.ofLayout wordAsInstruction {} l).result = .ok records ∧
      l.symbols.get? "B" = some 0x1008 ∧
      String.join (l.coded.map fun e => e.line.encoding wordAsInstruction l.symbols) =
        "001008181008F1454F46000000" ∧
      String.join ((Record.texts records).flatMap TextRecord.units) =
        "001008181008F1454F46000000" := by
  have hlayout : ∃ l,
      (Layout.ofLines wordAsInstruction {} "<input>" redefinedLabelProgram).result = .ok l ∧
      ((ObjectProgram.ofLayout wordAsInstruction {} l).result.toOption.isSome &&
        decide (l.symbols.get? "B" = some 0x1008 ∧
          String.join (l.coded.map fun e => e.line.encoding wordAsInstruction l.symbols) =
            "001008181008F1454F46000000")) = true :=
    Logged.exists_of_any (by decide +kernel)
  obtain ⟨l, hl, hfacts⟩ := hlayout
  obtain ⟨hsome, hsymbol, hjoin⟩ : _ ∧ _ ∧ _ := by simpa using hfacts
  cases hr : (ObjectProgram.ofLayout wordAsInstruction {} l).result with
  | error e => simp [hr, Except.toOption] at hsome
  | ok records =>
    obtain ⟨hunits, -⟩ := units_eq_encodings hl hr
    exact ⟨l, records, hl, hr, hsymbol, hjoin, hunits.trans hjoin⟩

end SicAssembler
