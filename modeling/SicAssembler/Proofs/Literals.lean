import SicAssembler.Proofs.Decoding
import SicAssembler.Proofs.Unencodable

/-!
# Byte literals

A literal is read exactly from the texts that are written as one, and it has code exactly if its
characters fit in bytes. The code decodes to the bytes that the payload denotes, so nothing of a
literal is lost in it but the case of hexadecimal digits. The layout gives a literal one address for
each byte of characters and two for each byte of digits.
-/

namespace SicAssembler

namespace Text

theorem hexValue?_toUpper {c : Char} (h : isHexDigit c = true) :
    hexValue? c.toUpper = hexValue? c := by
  apply of_isHexDigit _ h
  decide

theorem hexValue?_getD_lt {c : Char} (h : isHexDigit c = true) : (hexValue? c).getD 0 < 16 := by
  apply of_isHexDigit _ h
  decide

theorem bytesOfDigits_flatMap (bs : List UInt8) : bytesOfDigits (bs.flatMap byteDigits) = bs := by
  induction bs with
  | nil => rfl
  | cons b bs ih =>
    have hhigh : b.toNat / 16 < 16 := Nat.div_lt_of_lt_mul b.toNat_lt
    have hlow : b.toNat % 16 < 16 := Nat.mod_lt _ (by decide)
    have hbyte : 16 * (b.toNat / 16) + b.toNat % 16 = b.toNat := Nat.div_add_mod _ _
    rw [List.flatMap_cons, byteDigits, List.cons_append, List.cons_append, List.nil_append,
      bytesOfDigits, hexValue?_hexDigit _ hhigh, hexValue?_hexDigit _ hlow, ih, Option.getD_some,
      Option.getD_some, hbyte, UInt8.ofNat_toNat]

theorem hexBytes_hexOfBytes (bs : List UInt8) : hexBytes (hexOfBytes bs) = bs := by
  rw [hexBytes, hexOfBytes, String.toList_ofList, bytesOfDigits_flatMap]

theorem hexNumber_pair (a b : Char) :
    hexNumber [a, b] = 16 * (hexValue? a).getD 0 + (hexValue? b).getD 0 := by
  simp [hexNumber, positional, Nat.mul_comm]

/-- The case of digits does not matter for the bytes, each of which is the number that a pair of
digits denotes. -/
theorem bytesOfDigits_map_toUpper {cs : List Char} :
    (∀ c ∈ cs, isHexDigit c = true) → cs.length % 2 = 0 →
      (bytesOfDigits (cs.map Char.toUpper)).map UInt8.toNat =
        (Packer.chunks 2 cs).map hexNumber := by
  induction cs using bytesOfDigits.induct with
  | case1 a b rest ih =>
    intro hdigits heven
    obtain ⟨ha, hb, hrest⟩ : isHexDigit a = true ∧ isHexDigit b = true ∧
        ∀ c ∈ rest, isHexDigit c = true := by simpa using hdigits
    have hsmall : 16 * (hexValue? a).getD 0 + (hexValue? b).getD 0 < 2 ^ 8 := by
      have := hexValue?_getD_lt ha
      have := hexValue?_getD_lt hb
      omega
    have hcut : Packer.chunks 2 (a :: b :: rest) = [a, b] :: Packer.chunks 2 rest :=
      Packer.chunks_of_ne_nil (by decide) (List.cons_ne_nil _ _)
    rw [hcut, List.map_cons, List.map_cons, bytesOfDigits, hexValue?_toUpper ha,
      hexValue?_toUpper hb, List.map_cons, List.map_cons, hexNumber_pair, UInt8.toNat_ofNat',
      Nat.mod_eq_of_lt hsmall, ih hrest (by simpa [Nat.add_assoc] using heven)]
  | case2 cs hshort =>
    intro _ heven
    cases cs with
    | nil => simp [bytesOfDigits]
    | cons a rest =>
      cases rest with
      | nil => simp at heven
      | cons b rest => exact absurd rfl (hshort a b rest)

end Text

namespace ByteLiteral

/-- How a literal is written: a letter for its kind, an apostrophe, the payload and a last
apostrophe. The payload of a hexadecimal literal is an even number of digits. -/
inductive WrittenAs : ByteLiteral → String → Prop where
  | characters {letter : Char} (hletter : letter ∈ ['c', 'C']) (payload : List Char) :
      WrittenAs ⟨.characters, String.ofList payload⟩
        (String.ofList (letter :: '\'' :: (payload ++ ['\''])))
  | hexadecimal {letter : Char} (hletter : letter ∈ ['x', 'X']) {payload : List Char}
      (heven : payload.length % 2 = 0) (hdigits : ∀ c ∈ payload, c ∈ Text.asciiHexDigits) :
      WrittenAs ⟨.hexadecimal, String.ofList payload⟩
        (String.ofList (letter :: '\'' :: (payload ++ ['\''])))

def FitsBytes (b : ByteLiteral) : Prop :=
  b.kind = .characters → ∀ c ∈ b.payload.toList, c.toNat ≤ 0xFF

/-- The bytes that a literal denotes: the codes of its characters, or the numbers that its pairs of
digits denote. -/
def denoted (b : ByteLiteral) : List Nat :=
  match b.kind with
  | .characters => b.payload.toList.map Char.toNat
  | .hexadecimal => (Packer.chunks 2 b.payload.toList).map Text.hexNumber

/-- The addresses that the layout gives to each byte of a literal. -/
def stride (b : ByteLiteral) : Nat :=
  match b.kind with
  | .characters => 1
  | .hexadecimal => 2

theorem ofLetter?_eq_characters {c : Char} :
    LiteralKind.ofLetter? c = some .characters ↔ c ∈ ['c', 'C'] := by
  unfold LiteralKind.ofLetter?
  by_cases hc : c = 'C' ∨ c = 'c'
  · simpa [hc] using hc.symm
  · have hnot : c ∉ ['c', 'C'] := by simpa [or_comm] using hc
    by_cases hx : c = 'X' ∨ c = 'x' <;> simp [hc, hx, hnot]

theorem ofLetter?_eq_hexadecimal {c : Char} :
    LiteralKind.ofLetter? c = some .hexadecimal ↔ c ∈ ['x', 'X'] := by
  unfold LiteralKind.ofLetter?
  by_cases hc : c = 'C' ∨ c = 'c'
  · rcases hc with rfl | rfl <;> decide
  · by_cases hx : c = 'X' ∨ c = 'x'
    · simpa [hc, hx] using hx.symm
    · simp [hc, not_or.mp hx]

theorem read_eq_ok_iff {operand : String} {b : ByteLiteral} :
    read operand = .ok b ↔ b.WrittenAs operand := by
  constructor
  · intro h
    unfold read at h
    split at h
    · rename_i letter rest hoperand
      split at h
      · rename_i hlast
        have hrest : rest.dropLast ++ ['\''] = rest := List.dropLast_append_getLast? _ hlast
        have htext : operand = String.ofList (letter :: '\'' :: (rest.dropLast ++ ['\''])) := by
          rw [hrest, ← hoperand, String.ofList_toList]
        rw [htext]
        dsimp only at h
        split at h
        · rename_i hkind
          cases h
          exact .characters (ofLetter?_eq_characters.mp hkind) _
        · rename_i hkind
          split at h
          · rename_i hbytes
            cases h
            rw [Text.isHexBytes_iff, String.length_ofList, String.toList_ofList] at hbytes
            exact .hexadecimal (ofLetter?_eq_hexadecimal.mp hkind) hbytes.1
              fun c hc => Text.mem_asciiHexDigits_iff.mpr (hbytes.2 c hc)
          · cases h
        · cases h
      · cases h
    · cases h
  · intro h
    cases h with
    | characters hletter payload =>
      simp [read, ofLetter?_eq_characters.mpr hletter]
    | @hexadecimal letter hletter payload heven hdigits =>
      have hbytes : Text.isHexBytes (String.ofList payload) = true := by
        rw [Text.isHexBytes_iff, String.length_ofList, String.toList_ofList]
        exact ⟨heven, fun c hc => Text.mem_asciiHexDigits_iff.mp (hdigits c hc)⟩
      simp [read, ofLetter?_eq_hexadecimal.mpr hletter, hbytes]

variable {b : ByteLiteral} {l : SourceLine} {code : String}

theorem ofLine_eq_ok_iff : ofLine l = .ok b ↔ b.WrittenAs l.operand := by
  rw [← read_eq_ok_iff]
  cases hread : read l.operand with
  | ok other =>
    rw [SourceLine.ofLine_of_read hread]
    simp only [Except.ok.injEq]
  | error p =>
    rw [ofLine, hread]
    constructor
    · rintro ⟨⟩
    · rintro ⟨⟩

theorem encode_eq_ok_iff (hb : b.WrittenAs l.operand) :
    encode l = .ok code ↔ b.code? = some code := by
  have hread := read_eq_ok_iff.mpr hb
  rw [encode, SourceLine.ofLine_of_read hread]
  dsimp only
  cases b.code? with
  | some other => simp only [Except.ok.injEq, Option.some.injEq]
  | none =>
    constructor
    · rintro ⟨⟩
    · rintro ⟨⟩

theorem exists_code_iff_fitsBytes : (∃ code, b.code? = some code) ↔ b.FitsBytes := by
  rw [← Option.isSome_iff_exists, Option.isSome_iff_ne_none, Ne, SourceLine.code?_eq_none_iff]
  simp only [FitsBytes, not_and, not_exists, Nat.not_lt]

theorem isHexBytes_payload (hb : b.WrittenAs l.operand) (hk : b.kind = .hexadecimal) :
    Text.isHexBytes b.payload = true :=
  SourceLine.read_hexadecimal (read_eq_ok_iff.mpr hb) hk

theorem code?_characters {payload : String} (h : code? ⟨.characters, payload⟩ = some code) :
    code = Text.hexOfBytes (payload.toList.map fun c => UInt8.ofNat c.toNat) ∧
      ∀ c ∈ payload.toList, c.toNat < 256 := by
  obtain ⟨bytes, hbytes, rfl⟩ := Option.map_eq_some_iff.mp h
  rw [singleBytes?] at hbytes
  split at hbytes
  · rename_i hall
    cases hbytes
    exact ⟨rfl, by simpa using hall⟩
  · cases hbytes

theorem map_toNat_hexBytes_of_characters {payload : String}
    (h : code? ⟨.characters, payload⟩ = some code) :
    (Text.hexBytes code).map UInt8.toNat = payload.toList.map Char.toNat := by
  obtain ⟨rfl, hsmall⟩ := code?_characters h
  rw [Text.hexBytes_hexOfBytes, List.map_map]
  apply List.map_congr_left
  intro c hc
  rw [Function.comp_apply, UInt8.toNat_ofNat', Nat.mod_eq_of_lt (hsmall c hc)]

/-- The code of a literal decodes to the bytes that the literal denotes. -/
theorem map_toNat_hexBytes_code (hb : b.WrittenAs l.operand) (h : b.code? = some code) :
    (Text.hexBytes code).map UInt8.toNat = b.denoted := by
  obtain ⟨kind, payload⟩ := b
  cases kind with
  | characters => exact map_toNat_hexBytes_of_characters h
  | hexadecimal =>
    cases h
    obtain ⟨heven, hdigits⟩ := Text.isHexBytes_iff.mp (isHexBytes_payload hb rfl)
    rw [← String.length_toList] at heven
    rw [Text.hexBytes, Text.upper, String.toList_ofList, denoted]
    exact Text.bytesOfDigits_map_toUpper hdigits heven

theorem isCapitalHex_code (hb : b.WrittenAs l.operand) (h : b.code? = some code) :
    Text.IsCapitalHex code := by
  obtain ⟨kind, payload⟩ := b
  cases kind with
  | characters =>
    obtain ⟨rfl, -⟩ := code?_characters h
    exact Text.isCapitalHex_hexOfBytes _
  | hexadecimal =>
    cases h
    exact Text.isCapitalHex_upper (Text.isHexBytes_iff.mp (isHexBytes_payload hb rfl)).2

theorem even_length_code (hb : b.WrittenAs l.operand) (h : b.code? = some code) :
    code.length % 2 = 0 :=
  (Text.isHexBytes_iff.mp (SourceLine.isHexBytes_code? (isHexBytes_payload hb) h)).1

theorem length_payload (hb : b.WrittenAs l.operand) (h : b.code? = some code) :
    b.payload.length = b.stride * (Text.hexBytes code).length := by
  have hlength := SourceLine.code?_length h
  have heven := even_length_code hb h
  rw [Text.length_hexBytes, stride]
  cases hk : b.kind with
  | characters =>
    rw [if_pos hk] at hlength
    dsimp only
    omega
  | hexadecimal =>
    rw [if_neg (by simp [hk])] at hlength
    dsimp only
    omega

/-- Literals of one kind have the same code exactly if they have the same characters, or digits that
differ in their case only. -/
theorem code?_eq_some_iff {b' : ByteLiteral} (hkind : b'.kind = b.kind) (h : b.code? = some code) :
    b'.code? = some code ↔
      if b.kind = .characters then b'.payload = b.payload
      else Text.upper b'.payload = Text.upper b.payload := by
  obtain ⟨kind, payload⟩ := b
  obtain ⟨kind', payload'⟩ := b'
  dsimp only at hkind ⊢
  subst hkind
  cases kind' with
  | characters =>
    rw [if_pos rfl]
    constructor
    · intro h'
      have hsame : payload'.toList.map Char.toNat = payload.toList.map Char.toNat :=
        (map_toNat_hexBytes_of_characters h').symm.trans (map_toNat_hexBytes_of_characters h)
      have hinj : Function.Injective (List.map Char.toNat) :=
        List.map_injective_iff.mpr fun _ _ => Char.toNat_inj.mp
      exact String.toList_injective (hinj hsame)
    · rintro rfl
      exact h
  | hexadecimal =>
    rw [if_neg (by decide), ← h, code?, code?]
    exact Option.some_inj

end ByteLiteral

open ByteLiteral

/-- A byte literal is read exactly from the texts that are written as one, and has code exactly if
its characters fit in bytes. The code is an even number of capital hexadecimal digits and decodes to
the bytes that the literal denotes; of literals of one kind only those have it that have the same
characters, or the same digits up to their case. The layout gives the literal one address for each
byte of characters, and two for each byte of digits. -/
theorem literal_code_keeps_payload (l : SourceLine) :
    (∀ b, ofLine l = .ok b ↔ b.WrittenAs l.operand) ∧
    ((∃ code, encode l = .ok code) ↔ ∃ b : ByteLiteral, b.WrittenAs l.operand ∧ b.FitsBytes) ∧
    ∀ (b : ByteLiteral) (code : String), b.WrittenAs l.operand → encode l = .ok code →
      (code.length % 2 = 0 ∧ Text.IsCapitalHex code ∧
        (Text.hexBytes code).map UInt8.toNat = b.denoted) ∧
      (∀ (l' : SourceLine) (b' : ByteLiteral), b'.WrittenAs l'.operand → b'.kind = b.kind →
        (encode l' = .ok code ↔
          if b.kind = .characters then b'.payload = b.payload
          else Text.upper b'.payload = Text.upper b.payload)) ∧
      ∀ table : OpcodeTable, table.contains "BYTE" = false → l.mnemonic = "BYTE" →
        l.size table = .ok (b.stride * (Text.hexBytes code).length) := by
  refine ⟨fun b => ofLine_eq_ok_iff, ?_, ?_⟩
  · constructor
    · rintro ⟨code, hencode⟩
      obtain ⟨b, hread, hcode⟩ := SourceLine.encode_eq_ok hencode
      exact ⟨b, read_eq_ok_iff.mp hread, exists_code_iff_fitsBytes.mp ⟨code, hcode⟩⟩
    · rintro ⟨b, hb, hfits⟩
      obtain ⟨code, hcode⟩ := exists_code_iff_fitsBytes.mpr hfits
      exact ⟨code, (encode_eq_ok_iff hb).mpr hcode⟩
  · intro b code hb hencode
    have hcode := (encode_eq_ok_iff hb).mp hencode
    refine ⟨⟨even_length_code hb hcode, isCapitalHex_code hb hcode,
      map_toNat_hexBytes_code hb hcode⟩, ?_, ?_⟩
    · intro l' b' hb' hkind
      rw [encode_eq_ok_iff hb', code?_eq_some_iff hkind hcode]
    · intro table hc hm
      rw [SourceLine.size_of_byte (by rwa [hm]) hm, ofLine_eq_ok_iff.mpr hb,
        ← length_payload hb hcode]
      rfl

def literalLine (operand : String) : SourceLine := ⟨"-", "BYTE", operand, 1, "<input>", ""⟩

/-- Digits in mixed case, characters among which an apostrophe stands, and a character that is no
byte. -/
theorem code_of_mixed_literals :
    (encode (literalLine "x'0aF1'") = .ok "0AF1" ∧
      (Text.hexBytes "0AF1").map UInt8.toNat = [0x0A, 0xF1] ∧
      (literalLine "x'0aF1'").size .standard = .ok 4 ∧
      (encode (literalLine "X'0Af1'") = .ok "0AF1" ↔ Text.upper "0Af1" = Text.upper "0aF1")) ∧
    (encode (literalLine "c'a'É'") = .ok "6127C9" ∧
      (Text.hexBytes "6127C9").map UInt8.toNat = [0x61, 0x27, 0xC9] ∧
      (literalLine "c'a'É'").size .standard = .ok 3) ∧
    ¬∃ code, encode (literalLine "C'Ā'") = .ok code := by
  obtain ⟨hdigits, -, hdigitsCode⟩ := literal_code_keeps_payload (literalLine "x'0aF1'")
  obtain ⟨hcharacters, -, hcharactersCode⟩ := literal_code_keeps_payload (literalLine "c'a'É'")
  obtain ⟨hwide, hwideCode, -⟩ := literal_code_keeps_payload (literalLine "C'Ā'")
  obtain ⟨hrespelt, -, -⟩ := literal_code_keeps_payload (literalLine "X'0Af1'")
  have hbyte : OpcodeTable.standard.contains "BYTE" = false := by decide
  refine ⟨?_, ?_, ?_⟩
  · have hwritten := (hdigits ⟨.hexadecimal, "0aF1"⟩).mp (by decide +kernel)
    have hencode : encode (literalLine "x'0aF1'") = .ok "0AF1" := by decide +kernel
    obtain ⟨⟨-, -, hbytes⟩, hsame, hsize⟩ := hdigitsCode _ _ hwritten hencode
    have hother := (hrespelt ⟨.hexadecimal, "0Af1"⟩).mp (by decide +kernel)
    have hdenoted : denoted ⟨.hexadecimal, "0aF1"⟩ = [0x0A, 0xF1] := by decide +kernel
    exact ⟨hencode, hbytes.trans hdenoted, hsize .standard hbyte rfl, hsame _ _ hother rfl⟩
  · have hwritten := (hcharacters ⟨.characters, "a'É"⟩).mp (by decide +kernel)
    have hencode : encode (literalLine "c'a'É'") = .ok "6127C9" := by decide +kernel
    obtain ⟨⟨-, -, hbytes⟩, -, hsize⟩ := hcharactersCode _ _ hwritten hencode
    exact ⟨hencode, hbytes, hsize .standard hbyte rfl⟩
  · rw [hwideCode]
    rintro ⟨b, hb, hfits⟩
    have hread : ofLine (literalLine "C'Ā'") = .ok ⟨.characters, "Ā"⟩ := by decide +kernel
    rw [← hwide, hread] at hb
    cases hb
    exact absurd (hfits rfl 'Ā' (by decide)) (by decide)

end SicAssembler
