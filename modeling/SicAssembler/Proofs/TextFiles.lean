import SicAssembler.Assembly.File

/-!
# Texts in files

A text that is written to a file in UTF-8 is read back as it was. Folding the newlines of a text
does not change its lines, and lines that hold no line end are found again in the text that is made
of them.
-/

namespace SicAssembler

namespace Text

section Utf8

variable {n m k j : Nat}

private theorem toNat_ofNat_of_lt (h : n < 256) : (UInt8.ofNat n).toNat = n := by
  rw [UInt8.toNat_ofNat', Nat.mod_eq_of_lt h]

private theorem decodeFrom_one (pos : Nat) (rest : List UInt8) (hn : n < 0x80) :
    decodeFrom pos (UInt8.ofNat n :: rest) = consChar n (decodeFrom (pos + 1) rest) := by
  have hb : (UInt8.ofNat n).toNat = n := toNat_ofNat_of_lt (by omega)
  rw [decodeFrom.eq_def]
  simp [hb, hn]

private theorem isContinuation_le (h : isContinuation n = true) : 0x80 ≤ n ∧ n ≤ 0xBF := by
  simpa only [isContinuation, Bool.and_eq_true, decide_eq_true_eq] using h

private theorem isSecond_le (h : isSecond n m = true) : 0x80 ≤ m ∧ m ≤ 0xBF := by
  simp only [isSecond, Bool.and_eq_true] at h
  exact isContinuation_le h.1.1.1.1

private theorem decodeFrom_two (pos : Nat) (rest : List UInt8) (hn : 0xC2 ≤ n) (hn' : n < 0xE0)
    (hm : isSecond n m = true) :
    decodeFrom pos (UInt8.ofNat n :: UInt8.ofNat m :: rest) =
      consChar (n % 32 * 64 + m % 64) (decodeFrom (pos + 2) rest) := by
  have hrange := isSecond_le hm
  have hb : (UInt8.ofNat n).toNat = n := toNat_ofNat_of_lt (by omega)
  have hc : (UInt8.ofNat m).toNat = m := toNat_ofNat_of_lt (by omega)
  have h1 : ¬n < 0x80 := by omega
  have h2 : ¬n < 0xC2 := by omega
  have h3 : ¬0xF4 < n := by omega
  simp [decodeFrom, hb, hc, h1, h2, h3, hm, hn']

private theorem decodeFrom_three (pos : Nat) (rest : List UInt8) (hn : 0xE0 ≤ n) (hn' : n < 0xF0)
    (hm : isSecond n m = true) (hk : isContinuation k = true) :
    decodeFrom pos (UInt8.ofNat n :: UInt8.ofNat m :: UInt8.ofNat k :: rest) =
      consChar (n % 16 * 4096 + m % 64 * 64 + k % 64) (decodeFrom (pos + 3) rest) := by
  have hsecond := isSecond_le hm
  have hthird := isContinuation_le hk
  have hb : (UInt8.ofNat n).toNat = n := toNat_ofNat_of_lt (by omega)
  have hc : (UInt8.ofNat m).toNat = m := toNat_ofNat_of_lt (by omega)
  have hd : (UInt8.ofNat k).toNat = k := toNat_ofNat_of_lt (by omega)
  have h1 : ¬n < 0x80 := by omega
  have h2 : ¬n < 0xC2 := by omega
  have h3 : ¬0xF4 < n := by omega
  have h4 : ¬n < 0xE0 := by omega
  simp [decodeFrom, hb, hc, hd, h1, h2, h3, h4, hm, hk, hn']

private theorem decodeFrom_four (pos : Nat) (rest : List UInt8) (hn : 0xF0 ≤ n) (hn' : n ≤ 0xF4)
    (hm : isSecond n m = true) (hk : isContinuation k = true) (hj : isContinuation j = true) :
    decodeFrom pos (UInt8.ofNat n :: UInt8.ofNat m :: UInt8.ofNat k :: UInt8.ofNat j :: rest) =
      consChar (n % 8 * 262144 + m % 64 * 4096 + k % 64 * 64 + j % 64)
        (decodeFrom (pos + 4) rest) := by
  have hsecond := isSecond_le hm
  have hthird := isContinuation_le hk
  have hfourth := isContinuation_le hj
  have hb : (UInt8.ofNat n).toNat = n := toNat_ofNat_of_lt (by omega)
  have hc : (UInt8.ofNat m).toNat = m := toNat_ofNat_of_lt (by omega)
  have hd : (UInt8.ofNat k).toNat = k := toNat_ofNat_of_lt (by omega)
  have he : (UInt8.ofNat j).toNat = j := toNat_ofNat_of_lt (by omega)
  have h1 : ¬n < 0x80 := by omega
  have h2 : ¬n < 0xC2 := by omega
  have h3 : ¬0xF4 < n := by omega
  have h4 : ¬n < 0xE0 := by omega
  have h5 : ¬n < 0xF0 := by omega
  simp [decodeFrom, hb, hc, hd, he, h1, h2, h3, h4, h5, hm, hk, hj]

/-- A second byte is a continuation that gives the shortest form of a code point. -/
private theorem isSecond_of (h : isContinuation m = true) (h0 : n = 0xE0 → 0xA0 ≤ m)
    (h1 : n = 0xED → m ≤ 0x9F) (h2 : n = 0xF0 → 0x90 ≤ m) (h3 : n = 0xF4 → m ≤ 0x8F) :
    isSecond n m = true := by
  simp only [isSecond, h, Bool.true_and, Bool.and_eq_true, Bool.not_eq_true', Bool.and_eq_false_iff,
    beq_eq_false_iff_ne, decide_eq_false_iff_not]
  omega

private theorem isContinuation_add (h : n < 64) : isContinuation (0x80 + n) = true := by
  simp only [isContinuation, Bool.and_eq_true, decide_eq_true_eq]
  omega

/-- The bytes of a character are decoded to that character. -/
theorem decodeFrom_encodeChar (pos : Nat) (c : Char) (rest : List UInt8) :
    ∃ next, decodeFrom pos (encodeChar c ++ rest) = consChar c.toNat (decodeFrom next rest) := by
  have hvalid : c.toNat < 0xD800 ∨ 0xDFFF < c.toNat ∧ c.toNat < 0x110000 := c.valid
  unfold encodeChar
  generalize c.toNat = x at hvalid
  dsimp only
  -- One case for each length. That the code point is valid is needed for the second byte of three
  -- and of four.
  split
  · rename_i h1
    exact ⟨pos + 1, decodeFrom_one pos rest h1⟩
  · rename_i h1
    split
    · rename_i h2
      refine ⟨pos + 2, ?_⟩
      have hsecond : isSecond (0xC0 + x / 64) (0x80 + x % 64) = true :=
        isSecond_of (isContinuation_add (by omega)) (by omega) (by omega) (by omega) (by omega)
      have hvalue : (0xC0 + x / 64) % 32 * 64 + (0x80 + x % 64) % 64 = x := by omega
      have hdecode := decodeFrom_two pos rest (by omega) (by omega) hsecond
      rwa [hvalue] at hdecode
    · rename_i h2
      split
      · rename_i h3
        refine ⟨pos + 3, ?_⟩
        have hsecond : isSecond (0xE0 + x / 4096) (0x80 + x / 64 % 64) = true :=
          isSecond_of (isContinuation_add (by omega)) (by omega) (by omega) (by omega) (by omega)
        have hthird := isContinuation_add (n := x % 64) (by omega)
        have hvalue : (0xE0 + x / 4096) % 16 * 4096 + (0x80 + x / 64 % 64) % 64 * 64 +
            (0x80 + x % 64) % 64 = x := by omega
        have hdecode := decodeFrom_three pos rest (by omega) (by omega) hsecond hthird
        rwa [hvalue] at hdecode
      · rename_i h3
        refine ⟨pos + 4, ?_⟩
        have hsecond : isSecond (0xF0 + x / 262144) (0x80 + x / 4096 % 64) = true :=
          isSecond_of (isContinuation_add (by omega)) (by omega) (by omega) (by omega) (by omega)
        have hthird := isContinuation_add (n := x / 64 % 64) (by omega)
        have hfourth := isContinuation_add (n := x % 64) (by omega)
        have hvalue : (0xF0 + x / 262144) % 8 * 262144 + (0x80 + x / 4096 % 64) % 64 * 4096 +
            (0x80 + x / 64 % 64) % 64 * 64 + (0x80 + x % 64) % 64 = x := by omega
        have hdecode := decodeFrom_four pos rest (by omega) (by omega) hsecond hthird hfourth
        rwa [hvalue] at hdecode

end Utf8

theorem decodeFrom_flatMap (cs : List Char) :
    ∀ pos : Nat, decodeFrom pos (cs.flatMap encodeChar) = .ok cs := by
  induction cs with
  | nil =>
    intro pos
    rfl
  | cons c cs ih =>
    intro pos
    obtain ⟨next, hnext⟩ := decodeFrom_encodeChar pos c (cs.flatMap encodeChar)
    rw [List.flatMap_cons, hnext, ih, consChar, Char.ofNat_toNat]
    rfl

theorem decode_encode (s : String) : decode (encode s) = .ok s.toList :=
  decodeFrom_flatMap s.toList 0

theorem lineRuns_cons {c : Char} {cs : List Char} (h : ∀ rest, c = '\r' → cs ≠ '\n' :: rest) :
    lineRuns (c :: cs) = if isLineEnd c then [] :: lineRuns cs else attach c (lineRuns cs) := by
  rw [lineRuns]
  exact h

theorem lineRuns_cons_of_ne {c : Char} (hc : c ≠ '\r') (cs : List Char) :
    lineRuns (c :: cs) = if isLineEnd c then [] :: lineRuns cs else attach c (lineRuns cs) :=
  lineRuns_cons fun _ hreturn => absurd hreturn hc

theorem lineRuns_foldNewlines (cs : List Char) : lineRuns (foldNewlines cs) = lineRuns cs := by
  induction cs using foldNewlines.induct with
  | case1 => rfl
  | case2 cs ih =>
    rw [foldNewlines, lineRuns_cons_of_ne (by decide), ih, lineRuns]
    rfl
  | case3 c cs hpair ih =>
    rw [foldNewlines, lineRuns_cons hpair]
    · by_cases hc : c = '\r'
      · rw [if_pos hc, lineRuns_cons_of_ne (by decide), ih, hc]
        rfl
      · rw [if_neg hc, lineRuns_cons_of_ne hc, ih]
    · exact hpair

/-- A line ends at the first line feed. -/
theorem lineRuns_append {line : List Char} (h : ∀ c ∈ line, isLineEnd c = false)
    (rest : List Char) : lineRuns (line ++ '\n' :: rest) = line :: lineRuns rest := by
  induction line with
  | nil => rw [List.nil_append, lineRuns_cons_of_ne (by decide), if_pos (by decide)]
  | cons c line ih =>
    rw [List.forall_mem_cons] at h
    have hc : c ≠ '\r' := by
      rintro rfl
      exact absurd h.1 (by decide)
    rw [List.cons_append, lineRuns_cons_of_ne hc, if_neg (by simp [h.1]), ih h.2, attach]

/-- Lines that hold no line end are the lines of the text that is made of them. -/
theorem lines_unlines {ls : List String} (h : ∀ l ∈ ls, ∀ c ∈ l.toList, isLineEnd c = false) :
    lines (unlines ls) = ls := by
  rw [lines, unlines]
  induction ls with
  | nil => rfl
  | cons l ls ih =>
    rw [List.forall_mem_cons] at h
    have htext : (String.join ((l :: ls).map (· ++ "\n"))).toList =
        l.toList ++ '\n' :: (String.join (ls.map (· ++ "\n"))).toList := by
      simp
    rw [htext, lineRuns_append h.1, List.map_cons, ih h.2, String.ofList_toList]

end Text

/-- The lines of a file that holds a text in UTF-8 are the lines of the text. -/
theorem Disk.lines_of_read {d : Disk} {path s : String}
    (h : d.read (Path.plain path) = .ok (Text.encode s)) : d.lines path = .ok (Text.lines s) := by
  unfold lines
  dsimp only
  rw [h]
  dsimp only
  rw [Text.decode_encode]
  dsimp only
  rw [Text.lines, String.toList_ofList, Text.lineRuns_foldNewlines, Text.lines]

end SicAssembler
