import SicAssembler.Proofs.Conservation
import SicAssembler.Proofs.Fitting
import SicAssembler.Proofs.Skew

/-!
# Where text records end

A text record ends before storage that is only reserved, and before a unit for which it has no
room, and nowhere else. The bytes of a literal are cut only if one record cannot hold them.
-/

namespace SicAssembler

variable {table : OpcodeTable} {symbols : SymbolTable} {undefinedSymbols : UndefinedSymbols}

namespace Groups

variable {gap : Nat → Prop} {limit : Int} {g : Groups Piece} {i j m n : Nat} {xs : List Piece}

/-- A group has to end before a piece of `n` bytes at position `i`: a gap lies between its last
piece and that position, or the bytes do not fit into it. -/
def Parted (gap : Nat → Prop) (limit : Int) (xs : List Piece) (i n : Nat) : Prop :=
  (∃ k, gap k ∧ (∀ p ∈ xs.getLast?, p.index < k) ∧ k < i) ∨ limit < size Piece.code xs + n

theorem Parted.mono (h : Parted gap limit xs i n) (hij : i ≤ j) (hnm : n ≤ m) :
    Parted gap limit xs j m := by
  rcases h with ⟨k, hk, hlast, hlt⟩ | hsize
  · exact .inl ⟨k, hk, hlast, by omega⟩
  · exact .inr (by omega)

theorem Parted.of_succ (h : Parted gap limit xs (i + 1) n) (hgap : ¬gap i) :
    Parted gap limit xs i n := by
  rcases h with ⟨k, hk, hlast, hlt⟩ | hsize
  · have hne : k ≠ i := by
      rintro rfl
      exact hgap hk
    exact .inl ⟨k, hk, hlast, by omega⟩
  · exact .inr hsize

def Unbroken (gap : Nat → Prop) (xs : List Piece) : Prop :=
  ∀ p ∈ xs, ∀ q ∈ xs, ∀ k, p.index < k → k < q.index → ¬gap k

/-- Groups of pieces before position `i` that end exactly where they have to. If no group is
pending, the last one has to end before any piece of `n` bytes. -/
structure Justified (gap : Nat → Prop) (limit : Int) (n : Nat) (g : Groups Piece) (i : Nat) :
    Prop where
  below : ∀ p ∈ g.all, p.index < i
  unbroken : ∀ xs ∈ g.close.finished, Unbroken gap xs
  pending : ∀ p ∈ g.pending, ∀ k, p.index < k → k < i → ¬gap k
  parted : g.close.finished.IsChain fun xs ys =>
    ∀ q ∈ ys.head?, Parted gap limit xs q.index q.size
  next : g.pending = [] → ∀ xs ∈ g.finished.getLast?, Parted gap limit xs i n

theorem justified_empty : Justified gap limit n .empty i where
  below := by
    intro p hp
    cases hp
  unbroken := by
    intro xs hxs
    cases hxs
  pending := by
    intro p hp
    cases hp
  parted := .nil
  next := by
    intro _ xs hxs
    cases hxs

theorem close_of_pending_eq_nil (h : g.pending = []) : g.close = g := by
  obtain ⟨finished, pending⟩ := g
  cases h
  rfl

theorem finished_close (h : g.pending ≠ []) : g.close.finished = g.finished ++ [g.pending] := by
  obtain ⟨finished, pending⟩ := g
  cases pending with
  | nil => exact absurd rfl h
  | cons p ps => rfl

theorem Justified.close (h : Justified gap limit n g i) (hij : i ≤ j) (hnm : n ≤ m)
    (hp : g.pending ≠ [] → Parted gap limit g.pending j m) : Justified gap limit m g.close j := by
  have hclose : g.close.close = g.close := close_of_pending_eq_nil (pending_close g)
  refine ⟨?_, by rw [hclose]; exact h.unbroken, ?_, by rw [hclose]; exact h.parted, ?_⟩
  · intro p hmem
    rw [all_close] at hmem
    exact Nat.lt_of_lt_of_le (h.below p hmem) hij
  · rw [pending_close]
    intro p hmem
    cases hmem
  · intro _ xs hxs
    by_cases hnil : g.pending = []
    · rw [close_of_pending_eq_nil hnil] at hxs
      exact (h.next hnil xs hxs).mono hij hnm
    · rw [finished_close hnil, List.getLast?_concat] at hxs
      cases hxs
      exact hp hnil

theorem Justified.pass (h : Justified gap limit n g i) (hgap : ¬gap i) :
    Justified gap limit n g (i + 1) := by
  refine ⟨?_, h.unbroken, ?_, h.parted, ?_⟩
  · intro p hp
    exact Nat.lt_succ_of_lt (h.below p hp)
  · intro p hp k hk hlt
    rcases Nat.lt_succ_iff_lt_or_eq.mp hlt with hlt | rfl
    · exact h.pending p hp k hk hlt
    · exact hgap
  · intro hnil xs hxs
    exact (h.next hnil xs hxs).mono (Nat.le_succ i) (Nat.le_refl n)

theorem Unbroken.concat {x : Piece} (h : Unbroken gap xs) (hbelow : ∀ p ∈ xs, p.index ≤ x.index)
    (hgaps : ∀ p ∈ xs, ∀ k, p.index < k → k < x.index → ¬gap k) : Unbroken gap (xs ++ [x]) := by
  intro p hp q hq k hpk hkq
  rcases List.mem_append.mp hp with hp | hp
  · rcases List.mem_append.mp hq with hq | hq
    · exact h p hp q hq k hpk hkq
    · rw [List.mem_singleton.mp hq] at hkq
      exact hgaps p hp k hpk hkq
  · rw [List.mem_singleton.mp hp] at hpk
    rcases List.mem_append.mp hq with hq | hq
    · have hle := hbelow q hq
      omega
    · rw [List.mem_singleton.mp hq] at hkq
      omega

/-- With a piece put after the pending group, or at the start of a new one, no gap lies inside a
group. -/
theorem Justified.unbroken_put {x : Piece} (h : Justified gap limit n g (x.index + 1)) :
    ∀ xs ∈ g.finished ++ [g.pending ++ [x]], Unbroken gap xs := by
  have hbelow : ∀ p ∈ g.pending, p.index ≤ x.index := by
    intro p hp
    exact Nat.le_of_lt_succ (h.below p (List.mem_append_right _ hp))
  have hgaps : ∀ p ∈ g.pending, ∀ k, p.index < k → k < x.index → ¬gap k := by
    intro p hp k hk hlt
    exact h.pending p hp k hk (Nat.lt_succ_of_lt hlt)
  rw [List.forall_mem_append, List.forall_mem_singleton]
  obtain ⟨finished, pending⟩ := g
  cases pending with
  | nil =>
    refine ⟨h.unbroken, Unbroken.concat ?_ hbelow hgaps⟩
    intro p hp
    cases hp
  | cons p ps =>
    obtain ⟨hfinished, hpending⟩ := List.forall_mem_append.mp h.unbroken
    exact ⟨hfinished, (List.forall_mem_singleton.mp hpending).concat hbelow hgaps⟩

/-- A piece starts a new group only where the last one has to end. -/
theorem Justified.parted_put {x : Piece} (h : Justified gap limit n g (x.index + 1))
    (hgap : ¬gap x.index) (hn : n ≤ x.size) :
    (g.finished ++ [g.pending ++ [x]]).IsChain fun xs ys =>
      ∀ q ∈ ys.head?, Parted gap limit xs q.index q.size := by
  rw [List.isChain_append]
  obtain ⟨finished, pending⟩ := g
  cases pending with
  | nil =>
    refine ⟨h.parted, .singleton _, ?_⟩
    intro xs hxs ys hys q hq
    cases hys
    cases hq
    exact ((h.next rfl xs hxs).of_succ hgap).mono (Nat.le_refl _) hn
  | cons p ps =>
    obtain ⟨hfinished, -, hlast⟩ := List.isChain_append.mp h.parted
    refine ⟨hfinished, .singleton _, ?_⟩
    intro xs hxs ys hys q hq
    cases hys
    exact hlast xs hxs (p :: ps) rfl q hq

theorem Justified.put {x : Piece} (h : Justified gap limit n g (x.index + 1))
    (hgap : ¬gap x.index) (hn : n ≤ x.size) : Justified gap limit 1 (g.put x) (x.index + 1) := by
  have hne : (g.put x).pending ≠ [] := by simp [Groups.put]
  have hclose : (g.put x).close.finished = g.finished ++ [g.pending ++ [x]] := finished_close hne
  refine ⟨?_, by rw [hclose]; exact h.unbroken_put, ?_, by rw [hclose]; exact h.parted_put hgap hn,
    fun hnil => absurd hnil hne⟩
  · rw [all_put, List.forall_mem_append, List.forall_mem_singleton]
    exact ⟨h.below, Nat.lt_succ_self _⟩
  · rw [show (g.put x).pending = g.pending ++ [x] from rfl, List.forall_mem_append,
      List.forall_mem_singleton]
    exact ⟨h.pending, fun k hk hlt => absurd hk (by omega)⟩

theorem Justified.mono (h : Justified gap limit n g i) (hnm : n ≤ m) :
    Justified gap limit m g i :=
  ⟨h.below, h.unbroken, h.pending, h.parted,
    fun hnil xs hxs => (h.next hnil xs hxs).mono (Nat.le_refl i) hnm⟩

/-- Taking a piece finishes groups only where they have to end. -/
theorem Justified.push {x : Piece} (h : Justified gap limit 1 g (x.index + 1))
    (hgap : ¬gap x.index) (hx : 0 < x.size) :
    Justified gap limit 1 (g.push Piece.code limit x) (x.index + 1) := by
  -- A group that is closed to make room has to end before a piece of this size, if of no other.
  have hroom : Justified gap limit x.size
      (if limit < size Piece.code g.pending + unitSize x.code then g.close else g)
      (x.index + 1) := by
    split
    · rename_i hlimit
      exact h.close (Nat.le_refl _) hx fun _ => .inr hlimit
    · exact h.mono hx
  unfold Groups.push
  generalize (if limit < size Piece.code g.pending + unitSize x.code then g.close else g) = room
    at hroom
  have hput := hroom.put hgap (Nat.le_refl _)
  dsimp only
  split
  · rename_i hfull
    exact hput.close (Nat.le_refl _) (Nat.le_refl _) fun _ => .inr (by omega)
  · exact hput

theorem Justified.pushes (hgap : ¬gap i) {ys : List Piece} :
    ∀ {g : Groups Piece}, Justified gap limit 1 g (i + 1) →
      (∀ y ∈ ys, y.index = i ∧ 0 < y.size) →
      Justified gap limit 1 (ys.foldl (Groups.push Piece.code limit) g) (i + 1) := by
  induction ys with
  | nil =>
    intro g h _
    exact h
  | cons y ys ih =>
    intro g h hys
    obtain ⟨⟨rfl, hsize⟩, hrest⟩ := List.forall_mem_cons.mp hys
    exact ih (h.push hgap hsize) hrest

/-- An entry that reserves storage is a gap, and any other adds its pieces. -/
theorem Justified.enter {e : Entry} (h : Justified gap maxTextBytes 1 g i)
    (hgap : gap i ↔ e.line.reserves table = true)
    (hsize : ∀ p ∈ e.pieces table symbols i, 0 < p.size) :
    Justified gap maxTextBytes 1 (g.enter table symbols i e) (i + 1) := by
  unfold Groups.enter
  split
  · rename_i hreserves
    refine h.close (Nat.le_succ i) (Nat.le_refl 1) fun _ => .inl ?_
    refine ⟨i, hgap.mpr hreserves, ?_, Nat.lt_succ_self i⟩
    intro p hp
    exact h.below p (List.mem_append_right _ (List.mem_of_getLast? hp))
  · rename_i hreserves
    have hnot : ¬gap i := fun hg => hreserves (hgap.mp hg)
    refine (h.pass hnot).pushes hnot ?_
    intro p hp
    exact ⟨(Entry.mem_cut hp).1, hsize p hp⟩

theorem Justified.gather {entries : List Entry} :
    ∀ {i : Nat} {g : Groups Piece}, Justified gap maxTextBytes 1 g i →
      (∀ k e, entries[k]? = some e → (gap (i + k) ↔ e.line.reserves table = true)) →
      (∀ p ∈ Layout.piecesFrom table symbols i entries, 0 < p.size) →
      Justified gap maxTextBytes 1 (gather table symbols i g entries) (i + entries.length) := by
  induction entries with
  | nil =>
    intro i g h _ _
    exact h
  | cons e rest ih =>
    intro i g h hgap hsize
    rw [Layout.piecesFrom_cons, List.forall_mem_append] at hsize
    have hrest := ih (h.enter (hgap 0 e rfl) hsize.1) (fun k f hf => ?_) hsize.2
    · rw [List.length_cons, Nat.add_comm rest.length 1, ← Nat.add_assoc]
      exact hrest
    · rw [Nat.add_assoc, Nat.add_comm 1 k]
      exact hgap (k + 1) f hf

end Groups

namespace Layout

variable {l : Layout}

def ReservesAt (table : OpcodeTable) (l : Layout) (k : Nat) : Prop :=
  ∃ e, l.entries[k]? = some e ∧ e.line.reserves table = true

theorem getElem?_entries {k : Nat} {e : Entry} (h : l.coded[k]? = some e) :
    l.entries[k]? = some e := by
  rw [coded] at h
  obtain ⟨after, hafter⟩ := List.takeWhile_prefix (!Entry.isEnd ·) (l := l.entries)
  obtain ⟨hlt, -⟩ := List.getElem?_eq_some_iff.mp h
  rw [← hafter, List.getElem?_append_left hlt]
  exact h

theorem reservesAt_iff {k : Nat} {e : Entry} (h : l.coded[k]? = some e) :
    l.ReservesAt table k ↔ e.line.reserves table = true := by
  rw [ReservesAt, getElem?_entries h]
  simp

theorem le_index_of_mem_piecesFrom {entries : List Entry} {p : Piece} {i : Nat}
    (h : p ∈ piecesFrom table symbols i entries) : i ≤ p.index := by
  obtain ⟨⟨e, k⟩, hk, hp⟩ := List.mem_flatMap.mp h
  rw [(Entry.mem_cut hp).1]
  exact (List.mem_zipIdx hk).1

theorem filter_pieces_entry (e : Entry) (i j : Nat) :
    (e.pieces table symbols i).filter (·.index = j) =
      if i = j then e.pieces table symbols i else [] := by
  have hindex : ∀ p ∈ e.pieces table symbols i, p.index = i := fun p hp => (Entry.mem_cut hp).1
  split
  · rename_i hij
    apply List.filter_eq_self.mpr
    intro p hp
    simpa [hij] using hindex p hp
  · rename_i hij
    rw [List.filter_eq_nil_iff]
    intro p hp
    simpa [hindex p hp] using hij

theorem filter_piecesFrom_of_lt {entries : List Entry} {i j : Nat} (h : j < i) :
    (piecesFrom table symbols i entries).filter (·.index = j) = [] := by
  rw [List.filter_eq_nil_iff]
  intro p hp hindex
  have hle := le_index_of_mem_piecesFrom hp
  simp only [decide_eq_true_eq] at hindex
  omega

theorem filter_piecesFrom {entries : List Entry} {e : Entry} :
    ∀ {i k : Nat}, entries[k]? = some e →
      (piecesFrom table symbols i entries).filter (·.index = i + k) =
        e.pieces table symbols (i + k) := by
  induction entries with
  | nil =>
    intro i k h
    cases h
  | cons f rest ih =>
    intro i k h
    rw [piecesFrom_cons, List.filter_append, filter_pieces_entry]
    cases k with
    | zero =>
      cases h
      rw [Nat.add_zero, if_pos rfl, filter_piecesFrom_of_lt (Nat.lt_succ_self i), List.append_nil]
    | succ k =>
      have htail := ih (i := i + 1) (k := k) h
      rw [if_neg (by omega), List.nil_append, Nat.add_comm k 1, ← Nat.add_assoc]
      exact htail

theorem filter_pieces {i : Nat} {e : Entry} (h : l.coded[i]? = some e) :
    (l.pieces table).filter (·.index = i) = e.pieces table l.symbols i := by
  have hpieces : (piecesFrom table l.symbols 0 l.coded).filter (·.index = 0 + i) =
      e.pieces table l.symbols (0 + i) := filter_piecesFrom h
  rwa [Nat.zero_add] at hpieces

end Layout

/-- The sizes of the units into which code of `n` bytes is cut: full records, and what remains. -/
def cutSizes (n : Nat) : List Nat :=
  List.replicate (n / maxTextBytes) maxTextBytes ++
    if n % maxTextBytes = 0 then [] else [n % maxTextBytes]

theorem cutSizes_of_lt {n : Nat} (h : maxTextBytes < n) :
    cutSizes n = maxTextBytes :: cutSizes (n - maxTextBytes) := by
  have hdiv : n / maxTextBytes = (n - maxTextBytes) / maxTextBytes + 1 := by
    unfold maxTextBytes at h ⊢
    omega
  have hmod : (n - maxTextBytes) % maxTextBytes = n % maxTextBytes := by
    unfold maxTextBytes at h ⊢
    omega
  rw [cutSizes, cutSizes, hdiv, hmod, List.replicate_succ, List.cons_append]

theorem cutSizes_of_le {n : Nat} (h0 : 0 < n) (h : n ≤ maxTextBytes) : cutSizes n = [n] := by
  rcases Nat.lt_or_eq_of_le h with hlt | rfl
  · rw [cutSizes, Nat.div_eq_of_lt hlt, Nat.mod_eq_of_lt hlt, if_neg (by omega)]
    rfl
  · rfl

theorem map_unitSize_chunks (cs : List Char) (heven : cs.length % 2 = 0) :
    ((Packer.chunks (2 * maxTextBytes) cs).map String.ofList).map unitSize =
      cutSizes (cs.length / 2) := by
  induction cs using Entry.cut_induction with
  | nil => simp [cutSizes]
  | step cs hne ih =>
    have hpos := List.length_pos_iff.mpr hne
    by_cases hshort : cs.length ≤ 2 * maxTextBytes
    · rw [Packer.chunks_of_length_le hne hshort, cutSizes_of_le (by omega) (by omega)]
      simp [unitSize]
    · have hrest := ih (by rw [List.length_drop]; omega)
      have hdrop : (cs.drop (2 * maxTextBytes)).length / 2 = cs.length / 2 - maxTextBytes := by
        rw [List.length_drop]
        omega
      have hfirst : unitSize (String.ofList (cs.take (2 * maxTextBytes))) = maxTextBytes := by
        rw [unitSize, String.length_ofList, List.length_take]
        omega
      rw [Packer.chunks_of_ne_nil (by decide) hne, List.map_cons, List.map_cons, hrest, hfirst,
        hdrop, ← cutSizes_of_lt (by omega)]

theorem Entry.map_size_pieces {e : Entry} {i : Nat}
    (hc : table.contains e.line.mnemonic = false)
    (heven : (e.line.encoding table symbols).length % 2 = 0) :
    (e.pieces table symbols i).map Piece.size =
      cutSizes (unitSize (e.line.encoding table symbols)) := by
  have hsizes : (e.pieces table symbols i).map Piece.size =
      ((e.pieces table symbols i).map Piece.code).map unitSize := by
    rw [List.map_map]
    rfl
  rw [← String.length_toList] at heven
  rw [hsizes, pieces, map_code_cut, SourceLine.units_of_contains_eq_false hc,
    map_unitSize_chunks _ heven, unitSize, String.length_toList]

/-- A piece that alone has a property is in one group. -/
theorem exists_group_of_filter_flatten {P : Piece → Bool} {x : Piece} {gs : List (List Piece)}
    (h : gs.flatten.filter P = [x]) :
    ∃ before g after, gs = before ++ g :: after ∧ g.filter P = [x] ∧
      ∀ k ∈ before ++ after, ∀ p ∈ k, P p = false := by
  induction gs with
  | nil => cases h
  | cons g gs ih =>
    rw [List.flatten_cons, List.filter_append, List.append_eq_singleton_iff] at h
    rcases h with ⟨hg, hgs⟩ | ⟨hg, hgs⟩
    · obtain ⟨before, k, after, rfl, hk, hothers⟩ := ih hgs
      refine ⟨g :: before, k, after, rfl, hk, List.forall_mem_cons.mpr ⟨?_, hothers⟩⟩
      intro p hp
      simpa using List.filter_eq_nil_iff.mp hg p hp
    · refine ⟨[], g, gs, rfl, hg, ?_⟩
      intro k hk p hp
      simpa using List.filter_eq_nil_iff.mp hgs p (List.mem_flatten_of_mem hk hp)

namespace ObjectProgram

variable {l : Layout} {records : List Record}

theorem Packed.justified (h : Packed table undefinedSymbols l records) :
    Groups.Justified (l.ReservesAt table) maxTextBytes 1
      (Groups.gather table l.symbols 0 .empty l.coded) (0 + l.coded.length) := by
  apply Groups.justified_empty.gather
  · intro k e he
    rw [Nat.zero_add]
    exact Layout.reservesAt_iff he
  · intro p hp
    have hflatten : (l.groups table).flatten = Layout.piecesFrom table l.symbols 0 l.coded :=
      l.flatten_groups
    rw [← hflatten] at hp
    obtain ⟨g, hg, hpg⟩ := List.mem_flatten.mp hp
    exact h.size_pos hg hpg

/-- The code of an entry with a literal is that of the literal, and whole bytes. -/
theorem Packed.encode_literal (h : Packed table undefinedSymbols l records) {e : Entry}
    (he : e ∈ l.coded) (hc : table.contains e.line.mnemonic = false)
    (hm : e.line.mnemonic = "BYTE") :
    ByteLiteral.encode e.line = .ok (e.line.encoding table l.symbols) ∧
      (e.line.encoding table l.symbols).length % 2 = 0 := by
  obtain ⟨em, hem⟩ := h.emission e he
  have hencoded := (SourceLine.emits_of_emission hem).encoded (h.laid.operandValue_nonneg e.line)
  have hcode := hencoded.byte hc hm
  obtain ⟨b, hread, hb⟩ := SourceLine.encode_eq_ok hcode
  have hbytes := SourceLine.isHexBytes_code? (SourceLine.read_hexadecimal hread) hb
  exact ⟨hcode, (Text.isHexBytes_iff.mp hbytes).1⟩

end ObjectProgram

/-- A text record never holds units from both sides of an entry that only reserves storage, even of
no bytes. Between two records in a row such an entry lies, or the first unit of the second record
does not fit into the first. The literal of a `BYTE` entry is one unit of one record if it fits into
one, and otherwise it is cut into units that fill records and what remains. -/
theorem records_end_where_they_must {policy : Policy} {filename : String} {lines : List String}
    {l : Layout} {records : List Record}
    (hl : (Layout.ofLines table policy filename lines).result = .ok l)
    (hr : (ObjectProgram.ofLayout table policy l).result = .ok records) :
    let sources := Assembly.sources table ⟨l, records⟩
    ((Record.texts records).map TextRecord.units = sources.map (·.map Piece.code) ∧
      ∀ g ∈ sources, g ≠ [] ∧ ∀ p ∈ g, l.entries[p.index]? = some p.entry) ∧
    (∀ g ∈ sources, ∀ p ∈ g, ∀ q ∈ g, ∀ k, p.index < k → k < q.index →
      ¬l.ReservesAt table k) ∧
    ((Record.texts records).zip sources).IsChain (fun x y =>
      ∀ p ∈ x.2.getLast?, ∀ q ∈ y.2.head?,
        (∃ k, p.index < k ∧ k < q.index ∧ l.ReservesAt table k) ∨ 30 < x.1.length + q.size) ∧
    ∀ i e, l.coded[i]? = some e → table.contains e.line.mnemonic = false →
      e.line.mnemonic = "BYTE" →
      ∃ code, ByteLiteral.encode e.line = .ok code ∧
        (code ≠ "" → unitSize code ≤ 30 →
          ∃ before g after, sources = before ++ g :: after ∧
            g.filter (·.index = i) = [⟨i, e, 0, code⟩] ∧
            ∀ k ∈ before ++ after, ∀ p ∈ k, p.index ≠ i) ∧
        String.join ((sources.flatten.filter (·.index = i)).map Piece.code) = code ∧
        (sources.flatten.filter (·.index = i)).map Piece.size =
          List.replicate (unitSize code / 30) 30 ++
            if unitSize code % 30 = 0 then [] else [unitSize code % 30] := by
  have hpacked := ObjectProgram.packed_of_ofLayout (Layout.ofLines_laid hl) hr
  have hsources : Assembly.sources table ⟨l, records⟩ = l.groups table :=
    hpacked.sources_eq (a := ⟨l, records⟩)
  have hjustified := hpacked.justified
  dsimp only
  rw [hsources, Layout.flatten_groups]
  refine ⟨⟨?_, ?_⟩, hjustified.unbroken, ?_, ?_⟩
  · rw [hpacked.texts_eq, List.map_map]
    rfl
  · intro g hg
    refine ⟨hpacked.group_ne_nil hg, ?_⟩
    intro p hp
    exact Layout.getElem?_entries (Layout.mem_pieces (Layout.mem_pieces_of_mem_group hg hp)).1
  · rw [hpacked.texts_eq, List.zip_map_left, List.zip_eq_zipWith, List.zipWith_self, List.map_map]
    refine List.isChain_map_of_isChain _ ?_ hjustified.parted
    intro g k hgk p hp q hq
    rcases hgk q hq with ⟨j, hj, hlast, hlt⟩ | hsize
    · exact .inl ⟨j, hlast p hp, hlt, hj⟩
    · exact .inr (by exact_mod_cast hsize)
  · intro i e he hc hm
    obtain ⟨hcode, heven⟩ := hpacked.encode_literal (List.mem_of_getElem? he) hc hm
    have hpieces : (l.pieces table).filter (·.index = i) = e.pieces table l.symbols i :=
      Layout.filter_pieces he
    refine ⟨_, hcode, ?_, ?_, ?_⟩
    · intro hne hle
      have hshort : (e.line.encoding table l.symbols).length ≤ 2 * maxTextBytes := by
        unfold unitSize at hle
        unfold maxTextBytes
        omega
      rw [Entry.pieces, SourceLine.units_of_length_le hne hshort, ← Layout.flatten_groups]
        at hpieces
      obtain ⟨before, g, after, hgroups, hg, hothers⟩ := exists_group_of_filter_flatten hpieces
      exact ⟨before, g, after, hgroups, hg, fun k hk p hp => of_decide_eq_false (hothers k hk p hp)⟩
    · rw [hpieces, Entry.pieces, Entry.map_code_cut, SourceLine.join_units]
    · rw [hpieces]
      exact Entry.map_size_pieces hc heven

/-- Storage of no bytes between a word and an instruction, and a literal of 31 bytes. -/
def emptyReservationProgram : List String :=
  ["P START 1000", "A WORD 1", "- RESB 0", "- LDA A",
    "L BYTE C'" ++ String.ofList (List.replicate 31 'L') ++ "'", "- END P"]

theorem records_end_at_empty_reservation :
    ∃ l records,
      (Layout.ofLines .standard {} "<input>" emptyReservationProgram).result = .ok l ∧
      (ObjectProgram.ofLayout .standard {} l).result = .ok records ∧
      (Record.texts records).map TextRecord.length = [3, 3, 30, 1] ∧
      l.ReservesAt .standard 1 ∧
      (∀ g ∈ Assembly.sources .standard ⟨l, records⟩, ∀ p ∈ g, ∀ q ∈ g,
        ¬(p.index < 1 ∧ 1 < q.index)) ∧
      ((Assembly.sources .standard ⟨l, records⟩).flatten.filter (·.index = 3)).map Piece.size =
        [30, 1] := by
  have hlayout : ∃ l,
      (Layout.ofLines .standard {} "<input>" emptyReservationProgram).result = .ok l ∧
      ((ObjectProgram.ofLayout .standard {} l).result.toOption.any (fun records =>
          decide ((Record.texts records).map TextRecord.length = [3, 3, 30, 1])) &&
        l.entries[1]?.any (fun e => e.line.reserves .standard) &&
        l.coded[3]?.any (fun e => decide (e.line.mnemonic = "BYTE" ∧
          (ByteLiteral.encode e.line).toOption.map unitSize = some 31))) = true :=
    Logged.exists_of_any (by decide +kernel)
  obtain ⟨l, hl, hfacts⟩ := hlayout
  rw [Bool.and_eq_true, Bool.and_eq_true] at hfacts
  obtain ⟨⟨hrecords, hreserves⟩, hliteral⟩ := hfacts
  obtain ⟨records, hr, hlengths⟩ := Logged.exists_of_any hrecords
  obtain ⟨f, hf, hreserves⟩ := (Option.any_eq_true _ _).mp hreserves
  obtain ⟨e, he, hbyte⟩ := (Option.any_eq_true _ _).mp hliteral
  obtain ⟨hm, hsize⟩ := of_decide_eq_true hbyte
  obtain ⟨-, hunbroken, -, hliterals⟩ := records_end_where_they_must hl hr
  have hc : OpcodeTable.standard.contains e.line.mnemonic = false := by
    rw [hm]
    decide
  obtain ⟨code, hcode, -, -, hsizes⟩ := hliterals 3 e he hc hm
  rw [hcode] at hsize
  have hlength : unitSize code = 31 := Option.some.inj hsize
  rw [hlength] at hsizes
  refine ⟨l, records, hl, hr, of_decide_eq_true hlengths, ⟨f, hf, hreserves⟩, ?_, hsizes⟩
  rintro g hg p hp q hq ⟨hbefore, hafter⟩
  exact hunbroken g hg p hp q hq 1 hbefore hafter ⟨f, hf, hreserves⟩

end SicAssembler
