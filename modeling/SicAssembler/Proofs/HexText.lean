import SicAssembler.ByteLiteral
import Mathlib.Algebra.Ring.Int.Defs
import Mathlib.Algebra.Ring.Nat

/-!
# Hexadecimal text and its length

Two digits make a byte, so text that is cut after a whole number of bytes gives the same bytes. A
number that fits in a field is written on exactly the width of the field. What is written in
hexadecimal consists of capital digits.
-/

namespace SicAssembler.Text

@[simp] theorem length_bytesOfDigits (cs : List Char) :
    (bytesOfDigits cs).length = cs.length / 2 := by
  induction cs using bytesOfDigits.induct with
  | case1 a b rest ih =>
    simp only [bytesOfDigits, List.length_cons, ih]
    omega
  | case2 cs h =>
    cases cs with
    | nil => rfl
    | cons a cs =>
      cases cs with
      | nil => simp [bytesOfDigits]
      | cons b rest => exact absurd rfl (h a b rest)

theorem bytesOfDigits_drop (n : Nat) :
    ∀ cs : List Char, bytesOfDigits (cs.drop (2 * n)) = (bytesOfDigits cs).drop n := by
  induction n with
  | zero =>
    intro cs
    simp
  | succ n ih =>
    intro cs
    match cs with
    | [] => simp [bytesOfDigits]
    | [a] => simp [bytesOfDigits, Nat.mul_succ]
    | a :: b :: rest => simpa [bytesOfDigits, Nat.mul_succ] using ih rest

theorem bytesOfDigits_take (n : Nat) :
    ∀ cs : List Char, bytesOfDigits (cs.take (2 * n)) = (bytesOfDigits cs).take n := by
  induction n with
  | zero =>
    intro cs
    simp [bytesOfDigits]
  | succ n ih =>
    intro cs
    match cs with
    | [] => simp [bytesOfDigits]
    | [a] => simp [bytesOfDigits, Nat.mul_succ]
    | a :: b :: rest => simpa [bytesOfDigits, Nat.mul_succ] using ih rest

@[simp] theorem length_hexBytes (s : String) : (hexBytes s).length = s.length / 2 := by
  rw [hexBytes, length_bytesOfDigits, String.length_toList]

@[simp] theorem length_hexOfBytes (bs : List UInt8) : (hexOfBytes bs).length = 2 * bs.length := by
  rw [hexOfBytes, String.length_ofList]
  induction bs with
  | nil => rfl
  | cons b bs ih =>
    rw [List.flatMap_cons, List.length_append, ih]
    simp only [byteDigits, List.length_cons, List.length_nil]
    omega

@[simp] theorem length_upper (s : String) : (upper s).length = s.length := by
  rw [upper, String.length_ofList, List.length_map, String.length_toList]

/-- A number below `16 ^ (k + 1)` has at most `k + 1` digits. -/
theorem length_hexDigits_le (k : Nat) :
    ∀ {n : Nat}, n < 16 ^ (k + 1) → (hexDigits n).length ≤ k + 1 := by
  induction k with
  | zero =>
    intro n h
    rw [hexDigits, if_pos (by simpa using h)]
    simp
  | succ k ih =>
    intro n h
    rw [hexDigits]
    split
    · simp
    · have hq : n / 16 < 16 ^ (k + 1) := by
        rw [Nat.div_lt_iff_lt_mul (by decide)]
        simpa [Nat.pow_succ] using h
      have := ih hq
      simp only [List.length_append, List.length_cons, List.length_nil]
      omega

theorem length_hexField {width : Nat} {v : Int} (hw : 0 < width) (h0 : 0 ≤ v)
    (h1 : v < 16 ^ width) : (hexField width v).length = width := by
  obtain ⟨n, rfl⟩ := Int.eq_ofNat_of_zero_le h0
  obtain ⟨k, rfl⟩ : ∃ k, width = k + 1 := ⟨width - 1, by omega⟩
  have hn : n < 16 ^ (k + 1) := by exact_mod_cast h1
  have hd := length_hexDigits_le k hn
  change (String.ofList (padZeros (k + 1) (hexDigits n))).length = k + 1
  rw [String.length_ofList, padZeros, List.length_append, List.length_replicate]
  omega

theorem hexField_ne_empty (width : Nat) (v : Int) : hexField width v ≠ "" := by
  have hdigits : ∀ n, hexDigits n ≠ [] := by
    intro n
    rw [hexDigits]
    split
    · exact List.cons_ne_nil _ _
    · exact List.append_ne_nil_of_right_ne_nil _ (List.cons_ne_nil _ _)
  cases v with
  | ofNat n => simp [hexField, padZeros, hdigits]
  | negSucc n => simp [hexField]

def asciiHexDigits : List Char := "0123456789abcdefABCDEF".toList

/-- The digits in which numbers and bytes are written. -/
def capitalDigits : List Char := "0123456789ABCDEF".toList

def IsCapitalHex (s : String) : Prop := ∀ c ∈ s.toList, c ∈ capitalDigits

theorem hexDigit_mem_capitalDigits : ∀ d < 16, hexDigit d ∈ capitalDigits := by decide

theorem isHexDigit_of_mem_capitalDigits : ∀ c ∈ capitalDigits, isHexDigit c = true := by
  rw [← List.all_eq_true]
  decide

theorem mem_capitalDigits_of_mem_hexDigits (n : Nat) : ∀ c ∈ hexDigits n, c ∈ capitalDigits := by
  induction n using hexDigits.induct with
  | case1 n h =>
    intro c hc
    rw [hexDigits, if_pos h] at hc
    obtain rfl := List.mem_singleton.mp hc
    exact hexDigit_mem_capitalDigits n h
  | case2 n h ih =>
    intro c hc
    rw [hexDigits, if_neg h] at hc
    rcases List.mem_append.mp hc with hc | hc
    · exact ih c hc
    · obtain rfl := List.mem_singleton.mp hc
      exact hexDigit_mem_capitalDigits _ (Nat.mod_lt n (by decide))

theorem isCapitalHex_hexField {width : Nat} {v : Int} (h : 0 ≤ v) :
    IsCapitalHex (hexField width v) := by
  obtain ⟨n, rfl⟩ := Int.eq_ofNat_of_zero_le h
  intro c hc
  change c ∈ (String.ofList (padZeros width (hexDigits n))).toList at hc
  rw [String.toList_ofList, padZeros] at hc
  rcases List.mem_append.mp hc with hc | hc
  · rw [List.eq_of_mem_replicate hc]
    decide
  · exact mem_capitalDigits_of_mem_hexDigits n c hc

theorem isCapitalHex_hexOfBytes (bs : List UInt8) : IsCapitalHex (hexOfBytes bs) := by
  intro c hc
  rw [hexOfBytes, String.toList_ofList] at hc
  obtain ⟨b, -, hc⟩ := List.mem_flatMap.mp hc
  have hb : b.toNat / 16 < 16 := Nat.div_lt_of_lt_mul b.toNat_lt
  rcases List.mem_cons.mp hc with rfl | hc
  · exact hexDigit_mem_capitalDigits _ hb
  · obtain rfl := List.mem_singleton.mp hc
    exact hexDigit_mem_capitalDigits _ (Nat.mod_lt _ (by decide))

theorem IsCapitalHex.isHexDigit {s : String} (h : IsCapitalHex s) :
    ∀ c ∈ s.toList, isHexDigit c = true :=
  fun c hc => isHexDigit_of_mem_capitalDigits c (h c hc)

theorem isHexDigit_of_mem_hexField {width : Nat} {v : Int} (h : 0 ≤ v) :
    ∀ c ∈ (hexField width v).toList, isHexDigit c = true :=
  (isCapitalHex_hexField h).isHexDigit

theorem toNat_lt_of_isHexDigit {c : Char} (h : isHexDigit c = true) : c.toNat < 103 := by
  rw [isHexDigit, hexValue?] at h
  by_contra hlt
  simp [show ¬ c.toNat ≤ 57 by omega, show ¬ c.toNat ≤ 70 by omega,
    show ¬ c.toNat ≤ 102 by omega] at h

/-- What holds of the digits among the first characters holds of all digits. -/
theorem of_isHexDigit {P : Char → Prop}
    (hsmall : ∀ n < 103, isHexDigit (Char.ofNat n) = true → P (Char.ofNat n)) {c : Char}
    (h : isHexDigit c = true) : P c := by
  have hlt := toNat_lt_of_isHexDigit h
  rw [← Char.ofNat_toNat c] at h ⊢
  exact hsmall c.toNat hlt h

theorem toUpper_mem_capitalDigits {c : Char} (h : isHexDigit c = true) :
    c.toUpper ∈ capitalDigits := by
  apply of_isHexDigit _ h
  decide

theorem mem_asciiHexDigits_iff {c : Char} : c ∈ asciiHexDigits ↔ isHexDigit c = true := by
  constructor
  · have hdigits : asciiHexDigits.all isHexDigit = true := by decide
    exact List.all_eq_true.mp hdigits c
  · intro h
    apply of_isHexDigit _ h
    decide

theorem isBlank_of_isHexDigit {c : Char} (h : isHexDigit c = true) : isBlank c = false := by
  apply of_isHexDigit _ h
  decide

theorem isHexBytes_iff {s : String} :
    isHexBytes s = true ↔ s.length % 2 = 0 ∧ ∀ c ∈ s.toList, isHexDigit c = true := by
  rw [isHexBytes, Bool.and_eq_true, beq_iff_eq, List.all_eq_true, String.length_toList]

/-- A field of an even width is whole bytes. -/
theorem isHexBytes_hexField {width : Nat} {v : Int} (hw : 0 < width) (heven : width % 2 = 0)
    (h0 : 0 ≤ v) (h1 : v < 16 ^ width) : isHexBytes (hexField width v) = true := by
  rw [isHexBytes_iff, length_hexField hw h0 h1]
  exact ⟨heven, isHexDigit_of_mem_hexField h0⟩

theorem isHexBytes_hexOfBytes (bs : List UInt8) : isHexBytes (hexOfBytes bs) = true := by
  rw [isHexBytes_iff, length_hexOfBytes]
  exact ⟨Nat.mul_mod_right 2 _, (isCapitalHex_hexOfBytes bs).isHexDigit⟩

theorem isCapitalHex_upper {s : String} (h : ∀ c ∈ s.toList, isHexDigit c = true) :
    IsCapitalHex (upper s) := by
  intro c hc
  rw [upper, String.toList_ofList] at hc
  obtain ⟨b, hb, rfl⟩ := List.mem_map.mp hc
  exact toUpper_mem_capitalDigits (h b hb)

theorem isHexBytes_upper {s : String} (h : isHexBytes s = true) : isHexBytes (upper s) = true := by
  rw [isHexBytes_iff] at h ⊢
  rw [length_upper]
  exact ⟨h.1, (isCapitalHex_upper h.2).isHexDigit⟩

/-- Whole bytes after other text are whole bytes exactly if the other text is. -/
theorem isHexBytes_append {s t : String} (h : isHexBytes t = true) :
    isHexBytes (s ++ t) = true ↔ isHexBytes s = true := by
  rw [isHexBytes_iff] at h
  rw [isHexBytes_iff, isHexBytes_iff, String.length_append, String.toList_append,
    List.forall_mem_append]
  constructor
  · rintro ⟨heven, hs, -⟩
    exact ⟨by omega, hs⟩
  · rintro ⟨heven, hs⟩
    exact ⟨by omega, hs, h.2⟩

end SicAssembler.Text
