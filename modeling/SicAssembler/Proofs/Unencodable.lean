import SicAssembler.Proofs.Fitting
import SicAssembler.Proofs.Provenance

/-!
# When a program has no object program

A program that is laid out fails to give object code only at a statement that has no code: an
operand that no label defines where that is not allowed, a label that is too far away, a word that
is no number of 24 bits, or a literal with a character that is no byte. The first such statement
decides the diagnostic. Packing adds no failure of its own, as long as all codes fit in records.
-/

namespace SicAssembler

namespace SourceLine

inductive Unencodable (table : OpcodeTable) (symbols : SymbolTable)
    (undefinedSymbols : UndefinedSymbols) (l : SourceLine) : Problem → Prop where
  | undefinedOperand (hc : table.contains l.mnemonic = true) (hs : undefinedSymbols = .strict)
      (ho : l.operand ≠ absent) (hn : symbols.get? l.operand = none) :
      Unencodable table symbols undefinedSymbols l
        (.undefinedSymbol l.operand (Text.closeMatches l.operand symbols.keys 3))
  | addressTooWide {a : Int} (hc : table.contains l.mnemonic = true) (ho : l.operand ≠ absent)
      (ha : symbols.get? l.operand = some a) (hmax : 0xFFFF < a) :
      Unencodable table symbols undefinedSymbols l (.addressTooWide a l.operand)
  | wordNotDecimal (hc : table.contains l.mnemonic = false) (hm : l.mnemonic = "WORD")
      (hv : Text.decimal? l.operand = none) :
      Unencodable table symbols undefinedSymbols l (.wordNotDecimal l.operand)
  | wordTooWide {v : Int} (hc : table.contains l.mnemonic = false) (hm : l.mnemonic = "WORD")
      (hv : Text.decimal? l.operand = some v) (hrange : v < -0x800000 ∨ 0xFFFFFF < v) :
      Unencodable table symbols undefinedSymbols l (.wordTooWide v)
  | literalCharacter {payload : String} (hc : table.contains l.mnemonic = false)
      (hm : l.mnemonic = "BYTE") (hb : ByteLiteral.read l.operand = .ok ⟨.characters, payload⟩)
      (hwide : ∃ c ∈ payload.toList, 0xFF < c.toNat) :
      Unencodable table symbols undefinedSymbols l (.literalCharacter l.operand)

variable {table : OpcodeTable} {symbols : SymbolTable} {undefinedSymbols : UndefinedSymbols}
  {l : SourceLine} {d : Diagnostic}

/-- Instructions fail for their operands, directives as directives. -/
theorem Unencodable.family_eq {p : Problem} (h : l.Unencodable table symbols undefinedSymbols p) :
    p.family =
      if table.contains l.mnemonic then
        if (symbols.get? l.operand).isSome then .general else .undefinedSymbol
      else .directive := by
  cases h with
  | undefinedOperand hc hs ho hn => simp [hc, hn, Problem.family]
  | addressTooWide hc ho ha hmax => simp [hc, ha, Problem.family]
  | wordNotDecimal hc hm hv => simp [hc, Problem.family]
  | wordTooWide hc hm hv hrange => simp [hc, Problem.family]
  | literalCharacter hc hm hb hwide => simp [hc, Problem.family]

theorem operandAddress_eq_error (hc : table.contains l.mnemonic = true)
    (h : (l.operandAddress symbols undefinedSymbols).result = .error d) :
    ∃ p, l.Unencodable table symbols undefinedSymbols p ∧ d = l.operandFault p := by
  unfold operandAddress at h
  split at h
  · cases h
  · rename_i ho
    split at h
    · rename_i hn
      cases h
      exact ⟨_, .undefinedOperand hc rfl ho hn, rfl⟩
    · cases h
    · rename_i a ha
      split at h
      · rename_i hmax
        cases h
        exact ⟨_, .addressTooWide hc ho ha hmax, rfl⟩
      · cases h

theorem word_eq_error (hc : table.contains l.mnemonic = false) (hm : l.mnemonic = "WORD")
    (h : l.word = .error d) :
    ∃ p, l.Unencodable table symbols undefinedSymbols p ∧ d = l.operandFault p := by
  unfold word at h
  split at h
  · rename_i hv
    cases h
    exact ⟨_, .wordNotDecimal hc hm hv, rfl⟩
  · rename_i v hv
    split at h
    · cases h
    · rename_i hrange
      cases h
      exact ⟨_, .wordTooWide hc hm hv (by omega), rfl⟩

theorem code?_eq_none_iff {b : ByteLiteral} :
    b.code? = none ↔ b.kind = .characters ∧ ∃ c ∈ b.payload.toList, 0xFF < c.toNat := by
  obtain ⟨kind, payload⟩ := b
  cases kind with
  | characters =>
    simp only [ByteLiteral.code?, ByteLiteral.singleBytes?, Option.map_eq_none_iff,
      ite_eq_right_iff, reduceCtorEq, imp_false, List.all_eq_true, decide_eq_true_eq, true_and,
      not_forall, exists_prop]
    apply exists_congr
    intro c
    exact and_congr_right fun _ => by omega
  | hexadecimal => simp [ByteLiteral.code?]

theorem encode_of_read {b : ByteLiteral} (hb : ByteLiteral.read l.operand = .ok b)
    (hcode : b.code? = none) :
    ByteLiteral.encode l = .error (l.operandFault (.literalCharacter l.operand)) := by
  rw [ByteLiteral.encode, ofLine_of_read hb]
  simp only [hcode]

/-- A literal that has a size can be read, so only its characters keep it from having code. -/
theorem encode_eq_error {n : Nat} (hc : table.contains l.mnemonic = false)
    (hm : l.mnemonic = "BYTE") (hn : l.size table = .ok n) (h : ByteLiteral.encode l = .error d) :
    ∃ p, l.Unencodable table symbols undefinedSymbols p ∧ d = l.operandFault p := by
  rw [size_of_byte hc hm, ByteLiteral.ofLine] at hn
  cases hb : ByteLiteral.read l.operand with
  | error e =>
    rw [hb] at hn
    cases hn
  | ok b =>
    cases hcode : b.code? with
    | some code =>
      rw [ByteLiteral.encode, ofLine_of_read hb] at h
      simp [hcode] at h
    | none =>
      rw [encode_of_read hb hcode, Except.error.injEq] at h
      obtain ⟨hkind, hwide⟩ := code?_eq_none_iff.mp hcode
      obtain ⟨kind, payload⟩ := b
      cases hkind
      exact ⟨_, .literalCharacter hc hm hb hwide, h.symm⟩

theorem emission_eq_error_of_contains (hc : table.contains l.mnemonic = true) :
    (l.emission table symbols undefinedSymbols).result = .error d ↔
      (l.operandAddress symbols undefinedSymbols).result = .error d := by
  obtain ⟨code, hcode⟩ := Option.isSome_iff_exists.mp hc
  rw [emission, hcode]
  simp only [Logged.result_bind_eq_error, Logged.result_pure, reduceCtorEq, and_false,
    exists_false, or_false]

theorem emission_eq_error_of_word (hc : table.contains l.mnemonic = false)
    (hm : l.mnemonic = "WORD") :
    (l.emission table symbols undefinedSymbols).result = .error d ↔ l.word = .error d := by
  rw [emission, Option.isNone_iff_eq_none.mp (Option.isSome_eq_false_iff.mp hc)]
  cases l.word <;> simp [hm, Except.map]

theorem emission_eq_error_of_byte (hc : table.contains l.mnemonic = false)
    (hm : l.mnemonic = "BYTE") :
    (l.emission table symbols undefinedSymbols).result = .error d ↔
      ByteLiteral.encode l = .error d := by
  rw [emission, Option.isNone_iff_eq_none.mp (Option.isSome_eq_false_iff.mp hc)]
  cases ByteLiteral.encode l <;> simp [hm, Except.map]

theorem Unencodable.emission_eq_error {p : Problem}
    (h : l.Unencodable table symbols undefinedSymbols p) :
    (l.emission table symbols undefinedSymbols).result = .error (l.operandFault p) := by
  cases h with
  | undefinedOperand hc hs ho hn =>
    rw [emission_eq_error_of_contains hc]
    simp [operandAddress, ho, hn, hs, SourceLine.undefinedOperand]
  | @addressTooWide a hc ho ha hmax =>
    have hfar : maxOperandAddress < a := hmax
    rw [emission_eq_error_of_contains hc]
    simp [operandAddress, ho, ha, hfar]
  | wordNotDecimal hc hm hv =>
    rw [emission_eq_error_of_word hc hm, word, hv]
  | @wordTooWide v hc hm hv hrange =>
    have hout : ¬ (-0x800000 ≤ v ∧ v ≤ 0xFFFFFF) := by omega
    rw [emission_eq_error_of_word hc hm, word, hv]
    exact if_neg hout
  | literalCharacter hc hm hb hwide =>
    rw [emission_eq_error_of_byte hc hm]
    exact encode_of_read hb (code?_eq_none_iff.mpr ⟨rfl, hwide⟩)

/-- A statement that has a size fails only for want of code. -/
theorem exists_unencodable {n : Nat} (hn : l.size table = .ok n)
    (h : (l.emission table symbols undefinedSymbols).result = .error d) :
    ∃ p, l.Unencodable table symbols undefinedSymbols p ∧ d = l.operandFault p := by
  cases hc : table.contains l.mnemonic with
  | true => exact operandAddress_eq_error hc ((emission_eq_error_of_contains hc).mp h)
  | false =>
    by_cases hw : l.mnemonic = "WORD"
    · exact word_eq_error hc hw ((emission_eq_error_of_word hc hw).mp h)
    · by_cases hb : l.mnemonic = "BYTE"
      · exact encode_eq_error hc hb hn ((emission_eq_error_of_byte hc hb).mp h)
      · rw [emission, Option.isNone_iff_eq_none.mp (Option.isSome_eq_false_iff.mp hc)] at h
        simp only [hw, hb, if_false] at h
        split at h
        · cases h
        · cases h

theorem exists_emission {n : Nat} (hn : l.size table = .ok n)
    (h : ∀ p, ¬ l.Unencodable table symbols undefinedSymbols p) :
    ∃ em, (l.emission table symbols undefinedSymbols).result = .ok em := by
  cases hem : (l.emission table symbols undefinedSymbols).result with
  | ok em => exact ⟨em, rfl⟩
  | error d =>
    obtain ⟨p, hp, -⟩ := exists_unencodable hn hem
    exact absurd hp (h p)

end SourceLine

variable {table : OpcodeTable} {symbols : SymbolTable} {undefinedSymbols : UndefinedSymbols}

/-- An entry inside the addresses of six digits, whose code fits in text records if it has any. -/
structure Entry.Placeable (table : OpcodeTable) (symbols : SymbolTable) (e : Entry) : Prop where
  going : e.isEnd = false
  inside : ∃ n : Nat, e.line.size table = .ok n ∧ 0 ≤ e.address ∧ e.address + n ≤ maxAddress
  operand_nonneg : 0 ≤ e.line.operandValue symbols
  code_fits : ∀ code, table.get? e.line.mnemonic = some code → FitsInstruction code

namespace Layout

variable {l : Layout}

/-- A statement before the end of the program has a size, and it ends inside the chain. -/
theorem Chain.exists_size {a z : Int} {entries : List Entry} (h : Chain table a entries z)
    {e : Entry} (he : e ∈ entries) (hend : e.isEnd = false) :
    ∃ n : Nat, e.line.size table = .ok n ∧ a ≤ e.address ∧ e.address + n ≤ z := by
  induction h with
  | stop a => cases he
  | finish a hm =>
    obtain rfl := List.mem_singleton.mp he
    simp [Entry.isEnd, hm] at hend
  | next hm hs tail ih =>
    rcases List.mem_cons.mp he with rfl | he
    · exact ⟨_, hs, Int.le_refl _, tail.le⟩
    · obtain ⟨n, hn, ha, hz⟩ := ih he
      exact ⟨n, hn, by omega, hz⟩

theorem Laid.inside_of_mem_coded (h : Laid table l) {e : Entry} (he : e ∈ l.coded) :
    ∃ n : Nat, e.line.size table = .ok n ∧ 0 ≤ e.address ∧ e.address + n ≤ maxAddress := by
  obtain ⟨n, hn, ha, hz⟩ :=
    h.chain.exists_size ((List.takeWhile_sublist _).mem he) (isEnd_of_mem_coded he)
  have hstart := h.start_nonneg
  have hmax := h.end_le
  exact ⟨n, hn, by omega, by omega⟩

theorem Laid.placeable (h : Laid table l)
    (hcodes : ∀ e ∈ l.coded, ∀ code, table.get? e.line.mnemonic = some code →
      FitsInstruction code) : ∀ e ∈ l.coded, e.Placeable table l.symbols := by
  intro e he
  exact ⟨isEnd_of_mem_coded he, h.inside_of_mem_coded he, h.operandValue_nonneg e.line, hcodes e he⟩

end Layout

/-- An entry without code, where every entry before it has code. -/
def Layout.FirstUnencodable (table : OpcodeTable) (undefinedSymbols : UndefinedSymbols) (l : Layout)
    (e : Entry) (problem : Problem) : Prop :=
  ∃ before after, l.coded = before ++ e :: after ∧
    (∀ b ∈ before, ∀ other, ¬ b.line.Unencodable table l.symbols undefinedSymbols other) ∧
    e.line.Unencodable table l.symbols undefinedSymbols problem

theorem Layout.exists_firstUnencodable {l : Layout} {e : Entry} {problem : Problem}
    (he : e ∈ l.coded) (h : e.line.Unencodable table l.symbols undefinedSymbols problem) :
    ∃ e problem, l.FirstUnencodable table undefinedSymbols e problem := by
  classical
  let lacks : Entry → Bool := fun b =>
    decide (∃ other, b.line.Unencodable table l.symbols undefinedSymbols other)
  have hfound : (l.coded.find? lacks).isSome := by
    rw [List.find?_isSome]
    exact ⟨e, he, decide_eq_true ⟨problem, h⟩⟩
  obtain ⟨first, hfirst⟩ := Option.isSome_iff_exists.mp hfound
  obtain ⟨hlacks, before, after, hsplit, hbefore⟩ := List.find?_eq_some_iff_append.mp hfirst
  obtain ⟨other, hother⟩ := of_decide_eq_true hlacks
  refine ⟨first, other, before, after, hsplit, ?_, hother⟩
  intro b hb another hanother
  have hnot := hbefore b hb
  simp [lacks, (⟨another, hanother⟩ : ∃ p, b.line.Unencodable table l.symbols _ p)] at hnot

namespace ObjectProgram

theorem pack_step {p : Packer} {e : Entry} (hp : p.Ready) (he : e.Placeable table symbols)
    (hcode : ∀ problem, ¬ e.line.Unencodable table symbols undefinedSymbols problem) :
    ∃ q : Packer, q.Ready ∧ ∀ rest,
      (pack table symbols undefinedSymbols p (e :: rest)).result =
        (pack table symbols undefinedSymbols q rest).result := by
  obtain ⟨n, hn, h0, h1⟩ := he.inside
  obtain ⟨em, hem⟩ := SourceLine.exists_emission hn hcode
  have hfits := (SourceLine.emits_of_emission hem).fits he.code_fits he.operand_nonneg hn
  obtain ⟨hrefusal, hready⟩ := Packer.place_ready hp hfits h0 h1
  refine ⟨_, hready, ?_⟩
  intro rest
  have hplace := Step.result_toLogged_eq_ok.mpr ⟨hrefusal, rfl⟩
  rw [pack, if_neg (by simp [he.going]), Logged.bind_of_ok (Logged.result_mapError_eq_ok.mpr hem),
    Logged.bind_of_ok (Logged.result_mapError_eq_ok.mpr hplace)]

theorem pack_append {before : List Entry} :
    ∀ {p : Packer}, p.Ready →
      (∀ b ∈ before, b.Placeable table symbols) →
      (∀ b ∈ before, ∀ problem, ¬ b.line.Unencodable table symbols undefinedSymbols problem) →
      ∃ q : Packer, q.Ready ∧ ∀ rest,
        (pack table symbols undefinedSymbols p (before ++ rest)).result =
          (pack table symbols undefinedSymbols q rest).result := by
  induction before with
  | nil =>
    intro p hp _ _
    exact ⟨p, hp, fun _ => rfl⟩
  | cons b before ih =>
    intro p hp hplaceable hcode
    rw [List.forall_mem_cons] at hplaceable hcode
    obtain ⟨r, hr, hstep⟩ := pack_step hp hplaceable.1 hcode.1
    obtain ⟨q, hq, hsteps⟩ := ih hr hplaceable.2 hcode.2
    refine ⟨q, hq, ?_⟩
    intro rest
    rw [List.cons_append, hstep, hsteps]

theorem pack_of_unencodable {p : Packer} {e : Entry} {problem : Problem} (he : e.isEnd = false)
    (hproblem : e.line.Unencodable table symbols undefinedSymbols problem) (rest : List Entry) :
    (pack table symbols undefinedSymbols p (e :: rest)).result =
      .error (.diagnostic (e.line.operandFault problem)) := by
  have hem := hproblem.emission_eq_error
  rw [pack, if_neg (by simp [he]),
    Logged.bind_of_error (Logged.result_mapError_eq_error.mpr ⟨_, hem, rfl⟩)]

/-- Packing does not look at the entries from the first at which code stops. -/
theorem pack_takeWhile (entries : List Entry) :
    ∀ p : Packer, pack table symbols undefinedSymbols p (entries.takeWhile (!·.isEnd)) =
      pack table symbols undefinedSymbols p entries := by
  induction entries with
  | nil =>
    intro p
    rfl
  | cons e rest ih =>
    intro p
    by_cases hend : e.isEnd = true
    · rw [List.takeWhile_cons, if_neg (by simpa using hend), pack, pack, if_pos hend]
    · rw [List.takeWhile_cons, if_pos (by simpa using hend), pack, pack, if_neg hend, if_neg hend]
      simp only [ih]

variable {policy : Policy} {l : Layout}

private theorem fault?_eq_none {field : RecordField} {value : Int} (h0 : 0 ≤ value)
    (h1 : value ≤ maxAddress) : field.fault? value = none := if_pos ⟨h0, h1⟩

theorem exists_header (hlaid : Layout.Laid table l) : ∃ first, header l = .ok first := by
  have hstart := hlaid.start_nonneg
  have hchain := hlaid.chain.le
  have hend := hlaid.end_le
  have hlength := hlaid.length_eq
  have hmake : ∀ name, Record.makeHeader name l.program.start l.program.length =
      .ok (.header name l.program.start l.program.length) := by
    intro name
    rw [Record.makeHeader, fault?_eq_none hstart (by omega), fault?_eq_none (by omega) (by omega)]
  rcases hlaid.head with ⟨hnone, hzero, -⟩ | ⟨line, hsome⟩
  · rw [header, hnone, ← hzero]
    exact ⟨_, hmake _⟩
  · rw [header, hsome]
    exact ⟨_, hmake _⟩

theorem exists_finish (hlaid : Layout.Laid table l) :
    ∃ last, Record.makeFinish l.program.start = .ok last := by
  have hchain := hlaid.chain.le
  have hend := hlaid.end_le
  rw [Record.makeFinish, fault?_eq_none hlaid.start_nonneg (by omega)]
  exact ⟨_, rfl⟩

/-- A layout whose entries all have code has an object program. -/
theorem ofLayout_of_encodable (hlaid : Layout.Laid table l)
    (hplaceable : ∀ e ∈ l.coded, e.Placeable table l.symbols)
    (hcode : ∀ e ∈ l.coded, ∀ problem,
      ¬ e.line.Unencodable table l.symbols policy.undefinedSymbols problem) :
    ∃ records, (ofLayout table policy l).result = .ok records := by
  obtain ⟨first, hfirst⟩ := exists_header hlaid
  obtain ⟨last, hlast⟩ := exists_finish hlaid
  obtain ⟨q, hq, hsteps⟩ := pack_append Packer.ready_empty hplaceable hcode
  have hpack := hsteps []
  rw [List.append_nil, Layout.coded, pack_takeWhile] at hpack
  obtain ⟨hrefusal, -⟩ := Packer.flush_ready hq
  simp only [ofLayout, Logged.result_bind_eq_ok, Logged.result_mapError_eq_ok,
    Logged.result_ofExcept, Step.result_toLogged_eq_ok, Logged.result_pure, Except.ok.injEq]
  exact ⟨_, first, hfirst, q, hpack, _, ⟨hrefusal, rfl⟩, last, hlast, _, rfl, rfl⟩

theorem ofLayout_of_unencodable (hlaid : Layout.Laid table l)
    (hplaceable : ∀ e ∈ l.coded, e.Placeable table l.symbols) {e : Entry} {problem : Problem}
    (h : l.FirstUnencodable table policy.undefinedSymbols e problem) :
    (ofLayout table policy l).result = .error (.diagnostic (e.line.operandFault problem)) := by
  obtain ⟨before, after, hsplit, hcode, hproblem⟩ := h
  obtain ⟨first, hfirst⟩ := exists_header hlaid
  rw [hsplit, List.forall_mem_append, List.forall_mem_cons] at hplaceable
  obtain ⟨q, -, hsteps⟩ := pack_append Packer.ready_empty hplaceable.1 hcode
  have hpack := hsteps (e :: after)
  rw [pack_of_unencodable hplaceable.2.1.going hproblem, ← hsplit, Layout.coded,
    pack_takeWhile] at hpack
  rw [ofLayout, Logged.bind_of_ok (Logged.result_mapError_eq_ok.mpr hfirst),
    Logged.bind_of_error hpack]

/-- The object program of a layout fails with the diagnostic of the first entry without code, and
with nothing else. -/
theorem ofLayout_eq_error_iff (hlaid : Layout.Laid table l)
    (hplaceable : ∀ e ∈ l.coded, e.Placeable table l.symbols) {f : Fault} :
    (ofLayout table policy l).result = .error f ↔
      ∃ e problem, l.FirstUnencodable table policy.undefinedSymbols e problem ∧
        f = .diagnostic (e.line.operandFault problem) := by
  constructor
  · intro h
    by_cases hcode : ∀ e ∈ l.coded, ∀ problem,
        ¬ e.line.Unencodable table l.symbols policy.undefinedSymbols problem
    · obtain ⟨records, hrecords⟩ := ofLayout_of_encodable hlaid hplaceable hcode
      rw [hrecords] at h
      cases h
    · simp only [not_forall, not_not] at hcode
      obtain ⟨e, he, problem, hproblem⟩ := hcode
      obtain ⟨first, other, hfirst⟩ := Layout.exists_firstUnencodable he hproblem
      rw [ofLayout_of_unencodable hlaid hplaceable hfirst, Except.error.injEq] at h
      exact ⟨first, other, hfirst, h.symm⟩
  · rintro ⟨e, problem, hfirst, rfl⟩
    exact ofLayout_of_unencodable hlaid hplaceable hfirst

end ObjectProgram

theorem OpcodeTable.HasByteCodes.fitsInstruction (h : table.HasByteCodes) {mnemonic code : String}
    (hc : table.get? mnemonic = some code) : FitsInstruction code := by
  have hlength := h.length_eq hc
  obtain ⟨before, after, he, -⟩ := List.lookup_eq_some_iff.mp hc
  have hdigits := (h (mnemonic, code) (by simp [he])).2
  refine ⟨Text.isHexBytes_iff.mpr ⟨by omega, List.all_eq_true.mp hdigits⟩, ?_⟩
  rw [hlength]
  decide

/-- A program that is laid out has no object program exactly if one of its entries has no code. The
first such entry decides the diagnostic, and no record is ever refused. -/
theorem object_program_fails_at_first_unencodable {laying policy : Policy} {filename : String}
    {lines : List String} {l : Layout} (hcodes : table.HasByteCodes)
    (hlayout : (Layout.ofLines table laying filename lines).result = .ok l) :
    ((∃ f, (ObjectProgram.ofLayout table policy l).result = .error f) ↔
      ∃ e ∈ l.coded, ∃ problem,
        e.line.Unencodable table l.symbols policy.undefinedSymbols problem) ∧
    (∀ f, (ObjectProgram.ofLayout table policy l).result = .error f ↔
      ∃ e problem, l.FirstUnencodable table policy.undefinedSymbols e problem ∧
        f = .diagnostic (e.line.operandFault problem)) ∧
    (∀ e ∈ l.coded, ∀ problem,
      e.line.Unencodable table l.symbols policy.undefinedSymbols problem →
      problem.family =
        if table.contains e.line.mnemonic then
          if (l.symbols.get? e.line.operand).isSome then .general else .undefinedSymbol
        else .directive) ∧
    ∀ r, (ObjectProgram.ofLayout table policy l).result ≠ .error (.record r) := by
  have hlaid := Layout.ofLines_laid hlayout
  have hplaceable := hlaid.placeable fun e _ code hc => hcodes.fitsInstruction hc
  have herror : ∀ f, (ObjectProgram.ofLayout table policy l).result = .error f ↔ _ :=
    fun _ => ObjectProgram.ofLayout_eq_error_iff hlaid hplaceable
  refine ⟨⟨?_, ?_⟩, herror, fun _ _ _ hproblem => hproblem.family_eq, ?_⟩
  · rintro ⟨f, hf⟩
    obtain ⟨e, problem, ⟨before, after, hsplit, -, hproblem⟩, -⟩ := (herror f).mp hf
    exact ⟨e, by simp [hsplit], problem, hproblem⟩
  · rintro ⟨e, he, problem, hproblem⟩
    obtain ⟨first, other, hfirst⟩ := Layout.exists_firstUnencodable he hproblem
    exact ⟨_, (herror _).mpr ⟨first, other, hfirst, rfl⟩⟩
  · intro r hr
    obtain ⟨e, problem, -, hf⟩ := (herror _).mp hr
    cases hf

/-- An operand that no label defines, and after it a word that is no number. -/
def twoFaultsProgram : List String :=
  ["P START 0", "A LDA NOPE", "B WORD X", "- END P"]

theorem strict_run_fails_before_lenient_run :
    ∃ (l : Layout) (e e' : Entry),
      OpcodeTable.standard.HasByteCodes ∧
      (Layout.ofLines .standard {} "<input>" twoFaultsProgram).result = .ok l ∧
      l.FirstUnencodable .standard .strict e (.undefinedSymbol "NOPE" []) ∧
      (ObjectProgram.ofLayout .standard ⟨.strict, .overwrite⟩ l).result =
        .error (.diagnostic (e.line.operandFault (.undefinedSymbol "NOPE" []))) ∧
      l.FirstUnencodable .standard .lenient e' (.wordNotDecimal "X") ∧
      (ObjectProgram.ofLayout .standard {} l).result =
        .error (.diagnostic (e'.line.operandFault (.wordNotDecimal "X"))) := by
  have hcodes : OpcodeTable.standard.HasByteCodes := by decide +kernel
  have hrun : ∃ l, (Layout.ofLines .standard {} "<input>" twoFaultsProgram).result = .ok l ∧
      decide ((ObjectProgram.ofLayout .standard ⟨.strict, .overwrite⟩ l).result =
          .error (.diagnostic ⟨.undefinedSymbol "NOPE" [], some ⟨"<input>", 2, 7⟩,
            some "A LDA NOPE", none⟩) ∧
        (ObjectProgram.ofLayout .standard {} l).result =
          .error (.diagnostic ⟨.wordNotDecimal "X", some ⟨"<input>", 3, 8⟩, some "B WORD X",
            none⟩)) = true :=
    Logged.exists_of_any (by decide +kernel)
  obtain ⟨l, hlayout, hresults⟩ := hrun
  obtain ⟨hstrict, hlenient⟩ := of_decide_eq_true hresults
  obtain ⟨-, hfirst, -, -⟩ := object_program_fails_at_first_unencodable hcodes hlayout
  obtain ⟨e, problem, he, hd⟩ := (hfirst _).mp hstrict
  obtain ⟨-, hfirst', -, -⟩ := object_program_fails_at_first_unencodable hcodes hlayout
  obtain ⟨e', problem', he', hd'⟩ := (hfirst' _).mp hlenient
  simp only [Fault.diagnostic.injEq, SourceLine.operandFault, Diagnostic.mk.injEq] at hd hd'
  obtain ⟨rfl, -⟩ := hd
  obtain ⟨rfl, -⟩ := hd'
  exact ⟨l, e, e', hcodes, hlayout, he, (hfirst _).mpr ⟨e, _, he, rfl⟩, he',
    (hfirst' _).mpr ⟨e', _, he', rfl⟩⟩

end SicAssembler
