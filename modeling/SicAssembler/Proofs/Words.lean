import SicAssembler.Proofs.Decoding
import SicAssembler.Proofs.Duplicates

/-!
# Words

A number that is written in decimal digits is read back. As a word it has code exactly if it lies in
the 24-bit range, signed or unsigned. The code is the number modulo the range, so numbers that are
not negative are found again in it as it stands and those of the signed range in two's complement.
-/

namespace SicAssembler

namespace Text

/-- What holds of the ten digits of ASCII by their code points holds of each digit. -/
theorem of_isDigit {P : Char → Prop} (hsmall : ∀ d < 10, P (Char.ofNat (48 + d))) {c : Char}
    (h : c.isDigit = true) : P c := by
  obtain ⟨hlow, hhigh⟩ := Char.isDigit_iff_toNat.mp h
  have hlow' : 48 ≤ c.toNat := hlow
  have hhigh' : c.toNat ≤ 57 := hhigh
  have hchar := hsmall (c.toNat - 48) (by omega)
  rwa [Nat.add_sub_of_le hlow', Char.ofNat_toNat] at hchar

theorem digitIn?_of_isDigit {c : Char} (h : c.isDigit = true) :
    digitIn? 10 c = some (c.toNat - 48) := by
  apply of_isDigit _ h
  decide

theorem isNumeralBlank_of_isDigit {c : Char} (h : c.isDigit = true) : isNumeralBlank c = false := by
  apply of_isDigit _ h
  decide

theorem ne_marks_of_isDigit {c : Char} (h : c.isDigit = true) : c ≠ '_' ∧ c ≠ '-' ∧ c ≠ '+' := by
  apply of_isDigit _ h
  decide

theorem digitRun?_of_isDigit {cs : List Char} :
    cs ≠ [] → (∀ c ∈ cs, c.isDigit = true) → digitRun? 10 cs = some (cs.map (·.toNat - 48)) := by
  induction cs with
  | nil =>
    intro hne
    exact absurd rfl hne
  | cons c cs ih =>
    intro _ hdigits
    rw [List.forall_mem_cons] at hdigits
    cases cs with
    | nil => rw [digitRun?, digitIn?_of_isDigit hdigits.1, Option.map_some, List.map_singleton]
    | cons d cs =>
      have hd := (ne_marks_of_isDigit (List.forall_mem_cons.mp hdigits.2).1).1
      have hmark : ∀ rest, d :: cs = '_' :: rest → False := fun _ h => hd (List.cons.inj h).1
      rw [digitRun?, digitIn?_of_isDigit hdigits.1, ih (List.cons_ne_nil d cs) hdigits.2]
      · rfl
      · exact List.cons_ne_nil d cs
      · exact hmark

theorem positional_toDigits (n : Nat) :
    positional 10 ((Nat.toDigits 10 n).map (·.toNat - 48)) = n := by
  have hread : Nat.ofDigitChars 10 (Nat.toDigits 10 n) 0 = n :=
    Nat.ofDigitChars_toDigits (by decide) (by decide)
  rw [Nat.ofDigitChars_eq_foldl] at hread
  simp only [positional, List.foldl_map, Nat.mul_comm _ 10]
  exact hread

theorem dropAround_eq_self {p : Char → Bool} {cs : List Char} (h : ∀ c ∈ cs, p c = false) :
    dropAround p cs = cs := by
  have hdrop : ∀ cs : List Char, (∀ c ∈ cs, p c = false) → cs.dropWhile p = cs := by
    intro cs h
    rw [List.dropWhile_eq_self_iff]
    intro hpos
    rw [h _ (List.getElem_mem hpos)]
    exact Bool.false_ne_true
  have hreverse : ∀ c ∈ cs.reverse, p c = false := fun c hc => h c (List.mem_reverse.mp hc)
  rw [dropAround, hdrop cs h, dropEndWhile, hdrop cs.reverse hreverse, List.reverse_reverse]

/-- A number is written with a dash where it is negative, followed by its digits. -/
theorem toList_toString (v : Int) :
    (toString v).toList = (if v < 0 then ['-'] else []) ++ Nat.toDigits 10 v.natAbs := by
  rw [Int.toString_eq_repr, Int.repr_eq_if]
  split
  case isTrue hnonneg =>
    have habs : v.toNat = v.natAbs := by omega
    rw [Nat.toList_repr, habs, if_neg (by omega), List.nil_append]
  case isFalse hneg =>
    have habs : (-v).toNat = v.natAbs := by omega
    rw [String.toList_append, Nat.toList_repr, habs, if_pos (by omega)]
    rfl

theorem splitSign_toList (v : Int) :
    splitSign (toString v).toList = (decide (v < 0), Nat.toDigits 10 v.natAbs) := by
  rw [toList_toString]
  split
  case isTrue hneg => rw [decide_eq_true hneg, List.singleton_append, splitSign]
  case isFalse hnonneg =>
    rw [decide_eq_false hnonneg, List.nil_append]
    cases hdigits : Nat.toDigits 10 v.natAbs with
    | nil => rfl
    | cons c cs =>
      have hc : c.isDigit = true := by
        apply Nat.isDigit_of_mem_toDigits (b := 10) (n := v.natAbs) (by decide) (by decide)
        exact hdigits ▸ List.mem_cons_self
      obtain ⟨_, hdash, hplus⟩ := ne_marks_of_isDigit hc
      rw [splitSign]
      · exact fun _ h => hdash (List.cons.inj h).1
      · exact fun _ h => hplus (List.cons.inj h).1

theorem signed_natAbs (v : Int) : signed (decide (v < 0)) v.natAbs = v := by
  rw [signed]
  grind

/-- A number that is written in decimal is read back, unless it has too many digits. -/
theorem decimal?_toString (v : Int) :
    decimal? (toString v) =
      if (Nat.toDigits 10 v.natAbs).length ≤ decimalDigitLimit then some v else none := by
  have hdigits : ∀ c ∈ Nat.toDigits 10 v.natAbs, c.isDigit = true :=
    fun c hc => Nat.isDigit_of_mem_toDigits (by decide) (by decide) hc
  have hblank : ∀ c ∈ (toString v).toList, isNumeralBlank c = false := by
    intro c hc
    rw [toList_toString, List.mem_append] at hc
    obtain hc | hc := hc
    · have hdash : c = '-' := by grind
      rw [hdash]
      decide
    · exact isNumeralBlank_of_isDigit (hdigits c hc)
  rw [decimal?, dropAround_eq_self hblank, splitSign_toList]
  simp only [digitRun?_of_isDigit Nat.toDigits_ne_nil hdigits, List.length_map,
    positional_toDigits, signed_natAbs]

end Text

namespace SourceLine

def withNumber (l : SourceLine) (v : Int) : SourceLine := { l with operand := toString v }

def wordProblem (v : Int) : Problem :=
  if (Nat.toDigits 10 v.natAbs).length ≤ Text.decimalDigitLimit then .wordTooWide v
  else .wordNotDecimal (toString v)

theorem family_wordProblem (v : Int) : (wordProblem v).family = .directive := by
  rw [wordProblem]
  split <;> rfl

/-- Numbers of too many digits are far beyond the range of a word. -/
theorem length_toDigits_of_word {v : Int} (h : -2 ^ 23 ≤ v ∧ v < 2 ^ 24) :
    (Nat.toDigits 10 v.natAbs).length ≤ Text.decimalDigitLimit := by
  have hsmall : v.natAbs < 10 ^ 8 := by omega
  have hlength : (Nat.toDigits 10 v.natAbs).length ≤ 8 :=
    (Nat.length_toDigits_le_iff (by decide) (by decide)).mpr hsmall
  exact hlength.trans (by decide)

theorem word_withNumber (l : SourceLine) (v : Int) :
    (l.withNumber v).word =
      if -2 ^ 23 ≤ v ∧ v < 2 ^ 24 then .ok (Text.hexField 6 (v % 2 ^ 24))
      else .error ((l.withNumber v).operandFault (wordProblem v)) := by
  rw [word, withNumber, Text.decimal?_toString, wordProblem]
  by_cases hrange : -2 ^ 23 ≤ v ∧ v < 2 ^ 24
  · simp only [if_pos (length_toDigits_of_word hrange), if_pos hrange]
    rw [if_pos (by omega)]
    rfl
  · rw [if_neg hrange]
    by_cases hdigits : (Nat.toDigits 10 v.natAbs).length ≤ Text.decimalDigitLimit
    · simp only [if_pos hdigits]
      rw [if_neg (by omega)]
    · simp only [if_neg hdigits]

theorem word_withNumber_eq_ok {l : SourceLine} {v : Int} {code : String}
    (h : (l.withNumber v).word = .ok code) :
    (-2 ^ 23 ≤ v ∧ v < 2 ^ 24) ∧ code = Text.hexField 6 (v % 2 ^ 24) := by
  rw [word_withNumber] at h
  split at h
  case isTrue hrange => exact ⟨hrange, (Except.ok.inj h).symm⟩
  case isFalse => cases h

theorem word_withNumber_eq_error {l : SourceLine} {v : Int} {d : Diagnostic}
    (h : (l.withNumber v).word = .error d) :
    (l.withNumber v).DirectiveFault d ∧ d.problem = wordProblem v := by
  rw [word_withNumber] at h
  split at h
  case isTrue => cases h
  case isFalse =>
    cases h
    exact ⟨⟨family_wordProblem v, rfl⟩, rfl⟩

theorem shape_of_word {l : SourceLine} {v : Int} {code : String}
    (h : (l.withNumber v).word = .ok code) :
    code.length = 6 ∧ Text.IsCapitalHex code ∧
      (Text.hexNumber code.toList : Int) = v % 2 ^ 24 := by
  obtain ⟨_, rfl⟩ := word_withNumber_eq_ok h
  have hnonneg : 0 ≤ v % 2 ^ 24 := Int.emod_nonneg v (by decide)
  have hlt : v % 2 ^ 24 < 2 ^ 24 := Int.emod_lt_of_pos v (by decide)
  exact ⟨Text.length_hexField (by decide) hnonneg hlt, Text.isCapitalHex_hexField hnonneg,
    Text.hexNumber_hexField hnonneg⟩

/-- Read in two's complement, a residue of the range gives the numbers of the signed range back. -/
theorem toInt_ofNat_emod {v : Int} {n : Nat} (hn : (n : Int) = v % 2 ^ 24)
    (hrange : -2 ^ 23 ≤ v ∧ v < 2 ^ 23) : (BitVec.ofNat 24 n).toInt = v := by
  have hsmall : n < 2 ^ 24 := by omega
  rw [BitVec.toInt_eq_toNat_cond, BitVec.toNat_ofNat, Nat.mod_eq_of_lt hsmall]
  split <;> omega

theorem word_code_eq_iff {l l' : SourceLine} {v v' : Int} {code code' : String}
    (h : (l.withNumber v).word = .ok code) (h' : (l'.withNumber v').word = .ok code') :
    code' = code ↔ (2 ^ 24 : Int) ∣ v' - v := by
  have hdvd : (2 ^ 24 : Int) ∣ v' - v ↔ v' % 2 ^ 24 = v % 2 ^ 24 := by omega
  rw [hdvd]
  constructor
  · intro hcode
    rw [← (shape_of_word h').2.2, hcode, (shape_of_word h).2.2]
  · intro hmod
    rw [(word_withNumber_eq_ok h').2, hmod, (word_withNumber_eq_ok h).2]

end SourceLine

/-- For the number that is the operand of a word, in decimal digits:
1. it has code exactly if it lies in the range of 24 bits, signed or unsigned;
2. else the fault is one of the directive's operand, which names the number unless it has more
   digits than are read at all;
3. the code is six capital digits, whose value is the number modulo `2 ^ 24`;
4. so a number that is not negative is the value of its code, and
5. a number of the signed range is what its code denotes in two's complement;
6. two numbers with code share it exactly if they differ by a multiple of `2 ^ 24`. -/
theorem word_code_is_twos_complement (l : SourceLine) (v : Int) :
    ((∃ code, (l.withNumber v).word = .ok code) ↔ -2 ^ 23 ≤ v ∧ v ≤ 2 ^ 24 - 1) ∧
    (∀ d, (l.withNumber v).word = .error d → (l.withNumber v).DirectiveFault d ∧
      ((Nat.toDigits 10 v.natAbs).length ≤ Text.decimalDigitLimit →
        d.problem = .wordTooWide v)) ∧
    ∀ code, (l.withNumber v).word = .ok code →
      (code.length = 6 ∧ Text.IsCapitalHex code ∧
        (Text.hexNumber code.toList : Int) = v % 2 ^ 24) ∧
      (0 ≤ v → (Text.hexNumber code.toList : Int) = v) ∧
      (v < 2 ^ 23 → (BitVec.ofNat 24 (Text.hexNumber code.toList)).toInt = v) ∧
      ∀ (l' : SourceLine) (v' : Int) (code' : String), (l'.withNumber v').word = .ok code' →
        (code' = code ↔ (2 ^ 24 : Int) ∣ v' - v) := by
  refine ⟨⟨?_, ?_⟩, ?_, ?_⟩
  · rintro ⟨code, hcode⟩
    have hrange := (SourceLine.word_withNumber_eq_ok hcode).1
    omega
  · intro hrange
    exact ⟨_, by rw [SourceLine.word_withNumber, if_pos (by omega)]⟩
  · intro d hd
    obtain ⟨hfault, hproblem⟩ := SourceLine.word_withNumber_eq_error hd
    refine ⟨hfault, fun hdigits => ?_⟩
    rw [hproblem, SourceLine.wordProblem, if_pos hdigits]
  · intro code hcode
    have hrange := (SourceLine.word_withNumber_eq_ok hcode).1
    have hshape := SourceLine.shape_of_word hcode
    refine ⟨hshape, ?_, ?_, fun _ _ _ => SourceLine.word_code_eq_iff hcode⟩
    · intro hnonneg
      rw [hshape.2.2, Int.emod_eq_of_lt hnonneg hrange.2]
    · intro hsigned
      exact SourceLine.toInt_ofNat_emod hshape.2.2 ⟨hrange.1, hsigned⟩

def wordLine (v : Int) : SourceLine :=
  SourceLine.withNumber ⟨"-", "WORD", "0", 1, "<input>", ""⟩ v

/-- The least number of the signed range; the number below zero, which shares its code with the
greatest number of the unsigned range; and the number after that one. -/
theorem code_of_extreme_words :
    ((wordLine (-8388608)).word = .ok "800000" ∧
      (BitVec.ofNat 24 (Text.hexNumber "800000".toList)).toInt = -8388608) ∧
    ((wordLine (-1)).word = .ok "FFFFFF" ∧ (wordLine 16777215).word = .ok "FFFFFF" ∧
      (Text.hexNumber "FFFFFF".toList : Int) = 16777215 ∧
      (2 ^ 24 : Int) ∣ 16777215 - -1) ∧
    ¬∃ code, (wordLine 16777216).word = .ok code := by
  have hword := word_code_is_twos_complement ⟨"-", "WORD", "0", 1, "<input>", ""⟩
  have hleast : (wordLine (-8388608)).word = .ok "800000" := by decide +kernel
  have hminus : (wordLine (-1)).word = .ok "FFFFFF" := by decide +kernel
  have hgreatest : (wordLine 16777215).word = .ok "FFFFFF" := by decide +kernel
  refine ⟨⟨hleast, ?_⟩, ⟨hminus, hgreatest, ?_, ?_⟩, ?_⟩
  · exact ((hword (-8388608)).2.2 _ hleast).2.2.1 (by decide)
  · exact ((hword 16777215).2.2 _ hgreatest).2.1 (by decide)
  · exact (((hword (-1)).2.2 _ hminus).2.2.2 _ _ _ hgreatest).mp rfl
  · intro hcode
    exact absurd ((hword 16777216).1.mp hcode) (by decide)

end SicAssembler
