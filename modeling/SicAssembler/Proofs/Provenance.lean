import SicAssembler.Proofs.Pieces

/-!
# The text records of an assembly as groups of pieces

Packing a listing gathers its pieces into groups: the pieces of each entry are taken in order, and
an entry that only reserves storage finishes the pending group. Within a group each piece belongs
to a later entry than the one before it, at the address where that entry ends.
-/

namespace SicAssembler

namespace Groups

/-- Takes what an entry at position `i` emits. -/
def enter (table : OpcodeTable) (symbols : SymbolTable) (g : Groups Piece) (i : Nat) (e : Entry) :
    Groups Piece :=
  if e.line.reserves table then g.close
  else (e.pieces table symbols i).foldl (push Piece.code maxTextBytes) g

def gather (table : OpcodeTable) (symbols : SymbolTable) :
    Nat → Groups Piece → List Entry → Groups Piece
  | _, g, [] => g
  | i, g, e :: rest => gather table symbols (i + 1) (g.enter table symbols i e) rest

end Groups

variable {table : OpcodeTable} {symbols : SymbolTable} {undefinedSymbols : UndefinedSymbols}

namespace SourceLine

variable {l : SourceLine}

theorem reserves_of_get? {code : String} (hc : table.get? l.mnemonic = some code) :
    l.reserves table = false := by
  simp [reserves, Dictionary.contains, hc]

theorem reserves_iff (hc : table.get? l.mnemonic = none) :
    l.reserves table = true ↔ l.mnemonic = "RESW" ∨ l.mnemonic = "RESB" := by
  simp [reserves, Dictionary.contains, hc]

theorem units_of_reserves (h : l.reserves table = true) : l.units table symbols = [] := by
  cases hc : table.get? l.mnemonic with
  | some code =>
    rw [reserves_of_get? hc] at h
    cases h
  | none =>
    have hcontains : table.contains l.mnemonic = false := by simp [Dictionary.contains, hc]
    exact units_of_encoding_eq_empty (encoding_of_reserving hc ((reserves_iff hc).mp h)) hcontains

end SourceLine

namespace Groups

theorem all_enter (g : Groups Piece) (i : Nat) (e : Entry) :
    (g.enter table symbols i e).all = g.all ++ e.pieces table symbols i := by
  unfold enter
  split
  · rename_i hr
    rw [all_close, Entry.pieces, SourceLine.units_of_reserves hr]
    simp [Entry.cut]
  · exact all_pushes g _

theorem all_gather (table : OpcodeTable) (symbols : SymbolTable) (entries : List Entry) :
    ∀ (i : Nat) (g : Groups Piece), (gather table symbols i g entries).all =
      g.all ++ Layout.piecesFrom table symbols i entries := by
  induction entries with
  | nil =>
    intro i g
    simp [gather]
  | cons e rest ih =>
    intro i g
    rw [gather, ih, all_enter, Layout.piecesFrom_cons, List.append_assoc]

end Groups

namespace Packer

variable {p : Packer} {g : Groups Piece} {i : Nat} {e : Entry}

private theorem add_tracks_enter {code : String} (hres : e.line.reserves table = false)
    (hu : e.line.units table symbols = [code])
    (h : Tracks Piece.code Piece.place maxTextBytes p g)
    (hr : (p.add e.address code).refusal = none) :
    Tracks Piece.code Piece.place maxTextBytes (p.add e.address code).state
      (g.enter table symbols i e) := by
  have hplace : (⟨i, e, 0, code⟩ : Piece).place = e.address := Int.add_zero _
  have hadd := add_tracks (x := ⟨i, e, 0, code⟩) h
  rw [hplace] at hadd
  rw [Groups.enter, hres, Entry.pieces, hu]
  exact hadd hr

private theorem addBytes_tracks_enter (hres : e.line.reserves table = false)
    (hc : table.contains e.line.mnemonic = false)
    (h : Tracks Piece.code Piece.place maxTextBytes p g)
    (hr : (p.addBytes e.address (e.line.encoding table symbols)).refusal = none) :
    Tracks Piece.code Piece.place maxTextBytes
      (p.addBytes e.address (e.line.encoding table symbols)).state
      (g.enter table symbols i e) := by
  have hlimit : p.limit ≠ 0 := by
    rw [h.limit_eq]
    decide
  have hunits : (chunks (2 * p.limit.toNat) (e.line.encoding table symbols).toList).map
      String.ofList = (e.cut i 0 (e.line.units table symbols)).map Piece.code := by
    rw [Entry.map_code_cut, SourceLine.units_of_contains_eq_false hc, h.limit_eq]
    rfl
  have hstep := Entry.stepped_cut (i := i) (e := e) 0 (e.line.units table symbols)
  rw [Int.natCast_zero, Int.add_zero] at hstep
  simp only [addBytes, if_neg hlimit, hunits] at hr ⊢
  rw [Groups.enter, hres]
  exact addChunks_tracks h hstep hr

/-- The packer and the groups take the same from an entry. -/
theorem place_tracks {em : Emission} (hem : e.line.Emits table symbols undefinedSymbols em)
    (h : Tracks Piece.code Piece.place maxTextBytes p g)
    (hr : (p.place e.address em).refusal = none) :
    Tracks Piece.code Piece.place maxTextBytes (p.place e.address em).state
      (g.enter table symbols i e) := by
  cases hem with
  | instruction hc ha =>
    have hu : e.line.units table symbols = [e.line.encoding table symbols] := by
      simp [SourceLine.units, Dictionary.contains, hc]
    rw [SourceLine.encoding_of_operandAddress hc ha] at hu
    exact add_tracks_enter (SourceLine.reserves_of_get? hc) hu h hr
  | word hc hm hw =>
    have he : e.line.encoding table symbols = _ := SourceLine.encoding_of_word_eq_ok hc hm hw
    have hlen := (SourceLine.word_eq_ok hw).2
    have hu : e.line.units table symbols = [e.line.encoding table symbols] := by
      apply SourceLine.units_of_length_le
      · intro hempty
        rw [← he, hempty] at hlen
        cases hlen
      · rw [he, hlen]
        decide
    rw [he] at hu
    exact add_tracks_enter (by simp [SourceLine.reserves, hm]) hu h hr
  | byte hc hm hb =>
    have he : e.line.encoding table symbols = _ := SourceLine.encoding_of_encode_eq_ok hc hm hb
    have hcontains : table.contains e.line.mnemonic = false := by simp [Dictionary.contains, hc]
    have hres : e.line.reserves table = false := by simp [SourceLine.reserves, hm]
    subst he
    by_cases hempty : e.line.encoding table symbols = ""
    · rw [Groups.enter, hres, Entry.pieces,
        SourceLine.units_of_encoding_eq_empty hempty hcontains]
      simp only [place, if_pos hempty]
      exact h
    · simp only [place, if_neg hempty] at hr ⊢
      exact addBytes_tracks_enter hres hcontains h hr
  | gap hc hm =>
    rw [Groups.enter, (SourceLine.reserves_iff hc).mpr hm]
    exact flush_tracks h hr
  | nothing hc hw hb hres =>
    have hcontains : table.contains e.line.mnemonic = false := by simp [Dictionary.contains, hc]
    have hfalse : e.line.reserves table = false := by
      rw [← Bool.not_eq_true, SourceLine.reserves_iff hc]
      exact hres
    rw [Groups.enter, hfalse, Entry.pieces,
      SourceLine.units_of_encoding_eq_empty (SourceLine.encoding_of_other hc hw hb) hcontains]
    exact h

end Packer

namespace ObjectProgram

/-- Entries that a packer takes one after another, none of which is refused. -/
inductive Placed (table : OpcodeTable) (symbols : SymbolTable)
    (undefinedSymbols : UndefinedSymbols) : Packer → List Entry → Packer → Prop where
  | stop (p : Packer) : Placed table symbols undefinedSymbols p [] p
  | next {p q : Packer} {e : Entry} {rest : List Entry} {em : Emission}
      (hem : (e.line.emission table symbols undefinedSymbols).result = .ok em)
      (hr : (p.place e.address em).refusal = none)
      (tail : Placed table symbols undefinedSymbols (p.place e.address em).state rest q) :
      Placed table symbols undefinedSymbols p (e :: rest) q

/-- Packing takes the entries before the first at which code stops. -/
theorem placed_of_pack {entries : List Entry} :
    ∀ {p q : Packer}, (pack table symbols undefinedSymbols p entries).result = .ok q →
      Placed table symbols undefinedSymbols p (entries.takeWhile (!·.isEnd)) q := by
  induction entries with
  | nil =>
    intro p q h
    cases h
    exact .stop p
  | cons e rest ih =>
    intro p q h
    by_cases he : e.isEnd = true
    · rw [pack, if_pos he] at h
      cases h
      rw [List.takeWhile_cons, if_neg (by simpa using he)]
      exact .stop p
    · rw [pack, if_neg he] at h
      simp only [Logged.result_bind_eq_ok, Logged.result_mapError_eq_ok,
        Step.result_toLogged_eq_ok] at h
      obtain ⟨em, hem, _, ⟨hr, rfl⟩, hrest⟩ := h
      rw [List.takeWhile_cons, if_pos (by simpa using he)]
      exact .next hem hr (ih hrest)

/-- Packing entries makes the records of the groups that gather them. -/
theorem Placed.tracks {p q : Packer} {entries : List Entry}
    (h : Placed table symbols undefinedSymbols p entries q) :
    ∀ {i : Nat} {g : Groups Piece}, Packer.Tracks Piece.code Piece.place maxTextBytes p g →
      Packer.Tracks Piece.code Piece.place maxTextBytes q
        (Groups.gather table symbols i g entries) := by
  induction h with
  | stop p =>
    intro i g hg
    exact hg
  | next hem hr tail ih =>
    intro i g hg
    exact ih (Packer.place_tracks (SourceLine.emits_of_emission hem) hg hr)

theorem Placed.emission {p q : Packer} {entries : List Entry}
    (h : Placed table symbols undefinedSymbols p entries q) :
    ∀ e ∈ entries, ∃ em, (e.line.emission table symbols undefinedSymbols).result = .ok em := by
  induction h with
  | stop p =>
    intro e he
    cases he
  | next hem hr tail ih => exact List.forall_mem_cons.mpr ⟨⟨_, hem⟩, ih⟩

end ObjectProgram

/-- A piece that may stand after another in a record: it starts the code of a later entry, at the
address where the entry of the other one ends. -/
structure Piece.Follows (table : OpcodeTable) (p q : Piece) : Prop where
  index_lt : p.index < q.index
  offset_eq : q.offset = 0
  place_eq : q.place = p.place + p.size + p.hexBytes table

namespace Groups

/-- The last pending piece belongs to an entry before position `i`, which ends at an address. -/
def EndsAt (table : OpcodeTable) (g : Groups Piece) (i : Nat) (a : Int) : Prop :=
  ∀ p ∈ g.pending.getLast?, p.index < i ∧ p.place + p.size + p.hexBytes table = a

theorem enter_linked {g : Groups Piece} {i : Nat} {e : Entry}
    (hsized : e.line.Sized table symbols) (h : Linked (Piece.Follows table) g)
    (hends : EndsAt table g i e.address) :
    Linked (Piece.Follows table) (g.enter table symbols i e) := by
  unfold enter
  split
  · exact h.close
  · rw [Entry.pieces_eq_cutChars hsized]
    apply h.pushes (Entry.full_cutChars _ 0)
    intro p hp q hq
    obtain ⟨hindex, hplace⟩ := hends p hp
    have hoffset : q.offset = 0 := Entry.head_cutChars hq
    have hcut := Entry.cutOf_of_mem (List.mem_of_mem_head? hq)
    refine ⟨hcut.index_eq ▸ hindex, hoffset, ?_⟩
    rw [hplace, Piece.place, hoffset, hcut.entry_eq]
    exact Int.add_zero _

theorem enter_endsAt {g : Groups Piece} {i n : Nat} {e : Entry}
    (hsized : e.line.Sized table symbols) (hn : e.line.size table = .ok n)
    (hends : EndsAt table g i e.address) :
    EndsAt table (g.enter table symbols i e) (i + 1) (e.address + n) := by
  unfold enter
  split
  · intro p hp
    rw [pending_close] at hp
    cases hp
  · rename_i hres
    have hsize := hsized.size_eq n hn (by simpa using hres)
    have hhex := hsized.hex_le
    rw [Entry.pieces_eq_cutChars hsized]
    rcases List.eq_nil_or_concat (e.cutChars i 0 (e.line.encoding table symbols).toList) with
      hnil | ⟨front, q, hq⟩
    · -- Without code the statement takes no space, and the pending group stays as it is.
      have hzero : unitSize (e.line.encoding table symbols) = 0 := by
        rw [unitSize, ← String.length_toList, Entry.cutChars_eq_nil_iff.mp hnil]
        rfl
      rw [hnil]
      intro p hp
      obtain ⟨hindex, hplace⟩ := hends p hp
      refine ⟨by omega, ?_⟩
      rw [hplace]
      omega
    · rw [List.concat_eq_append] at hq
      have hlast : (e.cutChars i 0 (e.line.encoding table symbols).toList).getLast? = some q := by
        simp [hq]
      have hcut := Entry.cutOf_of_mem (List.mem_of_getLast? hlast)
      have hend := Entry.last_cutChars hlast
      rw [String.length_toList] at hend
      intro p hp
      rw [hq] at hp
      rcases pending_pushes front q g with hpending | hpending
      · rw [hpending] at hp
        cases hp
      · rw [hpending] at hp
        cases hp
        refine ⟨by rw [hcut.index_eq]; omega, ?_⟩
        rw [Piece.place, Piece.hexBytes, hcut.entry_eq]
        unfold unitSize at hsize
        omega

/-- In the groups of a chain of entries each piece follows the one before it. -/
theorem gather_linked {a z : Int} {entries : List Entry} (hchain : Layout.Chain table a entries z)
    (hend : ∀ e ∈ entries, e.isEnd = false) (hsized : ∀ e ∈ entries, e.line.Sized table symbols) :
    ∀ {i : Nat} {g : Groups Piece}, Linked (Piece.Follows table) g → EndsAt table g i a →
      Linked (Piece.Follows table) (gather table symbols i g entries) := by
  induction hchain with
  | stop a =>
    intro i g h _
    exact h
  | finish a hm => simp [Entry.isEnd, hm] at hend
  | next hm hn tail ih =>
    intro i g h hends
    rw [List.forall_mem_cons] at hend hsized
    exact ih hend.2 hsized.2 (enter_linked hsized.1 h hends) (enter_endsAt hsized.1 hn hends)

end Groups

/-- The pieces of a layout as the text records hold them. -/
def Layout.groups (table : OpcodeTable) (l : Layout) : List (List Piece) :=
  (Groups.gather table l.symbols 0 .empty l.coded).close.finished

def Piece.record (g : List Piece) : TextRecord := Groups.record Piece.code Piece.place g

namespace Layout

theorem flatten_groups (l : Layout) : (l.groups table).flatten = l.pieces table := by
  have h := Groups.all_gather table l.symbols l.coded 0 .empty
  rw [← Groups.all_close, Groups.all, Groups.pending_close, List.append_nil] at h
  exact h

theorem mem_pieces_of_mem_group {l : Layout} {g : List Piece} {p : Piece}
    (hg : g ∈ l.groups table) (hp : p ∈ g) : p ∈ l.pieces table := by
  rw [← flatten_groups]
  exact List.mem_flatten_of_mem hg hp

theorem Laid.symbol_nonneg {l : Layout} (h : Laid table l) {name : String} {a : Int}
    (ha : l.symbols.get? name = some a) : 0 ≤ a := by
  rw [h.symbols_get?, lastDefined, Option.map_eq_some_iff] at ha
  obtain ⟨e, he, rfl⟩ := ha
  have hmem := List.mem_of_mem_filter (List.mem_of_getLast? he)
  have hstart := h.start_nonneg
  have haddress := (h.chain.address_mem hmem).1
  omega

theorem Laid.operandValue_nonneg {l : Layout} (h : Laid table l) (line : SourceLine) :
    0 ≤ line.operandValue l.symbols := by
  unfold SourceLine.operandValue
  split
  · exact Int.le_refl 0
  · cases hs : l.symbols.get? line.operand with
    | none => exact Int.le_refl 0
    | some a => exact h.symbol_nonneg hs

end Layout

namespace ObjectProgram

/-- The records of a laid out program: a header, the records of its groups, and an end. -/
structure Packed (table : OpcodeTable) (undefinedSymbols : UndefinedSymbols) (l : Layout)
    (records : List Record) : Prop where
  laid : Layout.Laid table l
  records_eq : records = .header l.program.name l.program.start l.program.length ::
    (((l.groups table).map Piece.record).map .text ++ [.finish l.program.start])
  made : ∀ g ∈ l.groups table, (Piece.record g).fault? = none
  emission : ∀ e ∈ l.coded,
    ∃ em, (e.line.emission table l.symbols undefinedSymbols).result = .ok em

private theorem header_eq_ok {l : Layout} {first : Record} (hlaid : Layout.Laid table l)
    (h : header l = .ok first) :
    first = .header l.program.name l.program.start l.program.length := by
  have hmake : Record.makeHeader l.program.name l.program.start l.program.length = .ok first := by
    rcases hlaid.head with ⟨hnone, hstart, hname⟩ | ⟨line, hsome⟩
    · rw [header, hnone] at h
      rw [hstart, hname]
      exact h
    · rw [header, hsome] at h
      exact h
  unfold Record.makeHeader at hmake
  split at hmake
  · cases hmake
  · cases hmake
  · cases hmake
    rfl

private theorem makeFinish_eq_ok {address : Int} {last : Record}
    (h : Record.makeFinish address = .ok last) : last = .finish address := by
  unfold Record.makeFinish at h
  split at h
  · cases h
  · cases h
    rfl

theorem packed_of_ofLayout {policy : Policy} {l : Layout} {records : List Record}
    (hlaid : Layout.Laid table l) (h : (ofLayout table policy l).result = .ok records) :
    Packed table policy.undefinedSymbols l records := by
  simp only [ofLayout, Logged.result_bind_eq_ok, Logged.result_mapError_eq_ok,
    Logged.result_ofExcept, Step.result_toLogged_eq_ok, Logged.result_pure,
    Except.ok.injEq] at h
  obtain ⟨first, hfirst, q, hq, p, ⟨hflush, rfl⟩, last, hlast, _, _, rfl⟩ := h
  have hplaced := placed_of_pack hq
  have htracks := Packer.flush_tracks
    (hplaced.tracks (i := 0) (Packer.tracks_empty maxTextBytes)) hflush
  have hrecords : q.flush.state.records = (l.groups table).map Piece.record := htracks.records
  refine ⟨hlaid, ?_, ?_, hplaced.emission⟩
  · rw [header_eq_ok hlaid hfirst, makeFinish_eq_ok hlast, hrecords]
  · intro g hg
    apply htracks.made
    rw [hrecords]
    exact List.mem_map_of_mem hg

theorem Packed.texts_eq {l : Layout} {records : List Record}
    (h : Packed table undefinedSymbols l records) :
    Record.texts records = (l.groups table).map Piece.record := by
  have htexts : ∀ rs : List TextRecord, Record.texts (rs.map .text) = rs := by
    intro rs
    simp [Record.texts, List.filterMap_map]
  rw [h.records_eq, Record.texts, List.filterMap_cons, List.filterMap_append]
  simp only [List.filterMap_cons, List.filterMap_nil, List.append_nil]
  exact htexts _

theorem Packed.group_ne_nil {l : Layout} {records : List Record}
    (h : Packed table undefinedSymbols l records) {g : List Piece} (hg : g ∈ l.groups table) :
    g ≠ [] := by
  rintro rfl
  exact (TextRecord.fault?_eq_none.mp (h.made [] hg)).1 rfl

theorem Packed.size_pos {l : Layout} {records : List Record}
    (h : Packed table undefinedSymbols l records) {g : List Piece} {p : Piece}
    (hg : g ∈ l.groups table) (hp : p ∈ g) : 0 < p.size := by
  obtain ⟨-, hmem⟩ := Layout.mem_pieces (Layout.mem_pieces_of_mem_group hg hp)
  have hunit : p.code ∈ p.entry.line.units table l.symbols := by
    have hcode := List.mem_map_of_mem (f := Piece.code) hmem
    rwa [Entry.pieces, Entry.map_code_cut] at hcode
  have hpos : 0 < p.code.length := by
    rw [Nat.pos_iff_ne_zero, Ne, String.length_eq_zero_iff]
    exact SourceLine.ne_empty_of_mem_units hunit
  -- Whole bytes that are not empty are at least two digits.
  have hbytes := (TextRecord.fault?_eq_none.mp (h.made g hg)).2.1 p.code (List.mem_map_of_mem hp)
  have heven := (Text.isHexBytes_iff.mp hbytes).1
  unfold Piece.size unitSize
  omega

/-- In an object program every entry is as long as its code says. -/
theorem Packed.sized {l : Layout} {records : List Record}
    (h : Packed table undefinedSymbols l records) (hcodes : table.HasByteCodes) :
    ∀ e ∈ l.coded, e.line.Sized table l.symbols := by
  intro e he
  obtain ⟨em, hem⟩ := h.emission e he
  exact (SourceLine.emits_of_emission hem).sized hcodes (h.laid.operandValue_nonneg e.line)

theorem Packed.linked {l : Layout} {records : List Record}
    (h : Packed table undefinedSymbols l records) (hcodes : table.HasByteCodes) :
    ∀ g ∈ l.groups table, g ≠ [] ∧ g.IsChain (Piece.Follows table) := by
  obtain ⟨y, -, hchain⟩ := h.laid.coded_chain
  have hlinked := Groups.gather_linked hchain (fun _ => Layout.isEnd_of_mem_coded)
    (h.sized hcodes) (i := 0) .empty (fun p hp => by cases hp)
  exact hlinked.close.finished

end ObjectProgram

/-- An assembly is a layout and the object program of that layout. -/
theorem Assembly.ofLines_eq_ok {policy : Policy} {opcodes : OpcodeSource} {filename : String}
    {lines : List String} {a : Assembly}
    (hload : (opcodes.load Assembly.opcodesName).result = .ok table)
    (h : (Assembly.ofLines policy opcodes filename lines).result = .ok a) :
    (Layout.ofLines table policy filename lines).result = .ok a.layout ∧
      (ObjectProgram.ofLayout table policy a.layout).result = .ok a.records := by
  simp only [Assembly.ofLines, Assembly.ofTable, Logged.result_bind_eq_ok,
    Logged.result_mapError_eq_ok, hload, Logged.result_pure, Except.ok.injEq] at h
  obtain ⟨_, rfl, _, _, layout, hlayout, records, hrecords, _, _, rfl⟩ := h
  exact ⟨hlayout, hrecords⟩

theorem Assembly.packed_of_ofLines {policy : Policy} {opcodes : OpcodeSource} {filename : String}
    {lines : List String} {a : Assembly}
    (hload : (opcodes.load Assembly.opcodesName).result = .ok table)
    (h : (Assembly.ofLines policy opcodes filename lines).result = .ok a) :
    ObjectProgram.Packed table policy.undefinedSymbols a.layout a.records := by
  obtain ⟨hlayout, hrecords⟩ := ofLines_eq_ok hload h
  exact ObjectProgram.packed_of_ofLayout (Layout.ofLines_laid hlayout) hrecords

end SicAssembler
