import SicAssembler.Proofs.AddressChain
import Mathlib.Data.List.Chain

/-!
# The listing of a source

The entries of a layout are the statements of its source in their order, from the head of the
program up to the statement that ends it. Each stands where the one before it ends.
-/

namespace SicAssembler

namespace SourceLine

/-- The lines of a source that are not comments, each read with its number. -/
def parsed (filename : String) (lines : List String) : List (Except Diagnostic SourceLine) :=
  ((lines.zipIdx 1).filter fun x => !isComment x.1).map fun x => parse x.1 x.2 filename

theorem statementsFrom_eq (filename : String) (lines : List String) :
    ∀ n : Nat, statementsFrom filename n lines =
      ((lines.zipIdx n).filter fun x => !isComment x.1).map fun x => parse x.1 x.2 filename := by
  induction lines with
  | nil =>
    intro n
    rfl
  | cons text rest ih =>
    intro n
    rw [statementsFrom, List.zipIdx_cons, ih]
    by_cases hc : isComment text = true
    · rw [if_pos hc, List.filter_cons_of_neg (by simp [hc])]
    · rw [if_neg hc, List.filter_cons_of_pos (by simpa using hc), List.map_cons]

theorem statementsFrom_append (filename : String) (n : Nat) (lines more : List String) :
    statementsFrom filename n (lines ++ more) =
      statementsFrom filename n lines ++ statementsFrom filename (n + lines.length) more := by
  simp only [statementsFrom_eq, List.zipIdx_append, List.filter_append, List.map_append]

theorem statementsFrom_of_comments {filename : String} {n : Nat} {lines : List String}
    (h : ∀ text ∈ lines, isComment text = true) : statementsFrom filename n lines = [] := by
  rw [statementsFrom_eq, List.map_eq_nil_iff, List.filter_eq_nil_iff]
  intro x hx
  simp [h x.1 (List.fst_mem_of_mem_zipIdx hx)]

theorem statements_eq_parsed (filename : String) (lines : List String) :
    statements filename lines = parsed filename lines :=
  statementsFrom_eq filename lines 1

theorem mem_statements_iff {filename : String} {lines : List String}
    {statement : Except Diagnostic SourceLine} :
    statement ∈ statements filename lines ↔
      ∃ (n : Nat) (text : String), 1 ≤ n ∧ lines[n - 1]? = some text ∧ isComment text = false ∧
        parse text n filename = statement := by
  rw [statements_eq_parsed, parsed, List.mem_map]
  simp only [List.mem_filter, List.mem_zipIdx_iff_le_and_getElem?_sub, Prod.exists,
    Bool.not_eq_true', and_assoc]
  exact exists_comm

end SourceLine

namespace Layout

variable {table : OpcodeTable} {duplicates : DuplicateLabels} {filename : String}

namespace Chain

variable {a z : Int} {entries : List Entry}

theorem head_address (h : Chain table a entries z) {e : Entry} (he : entries.head? = some e) :
    e.address = a := by
  cases h with
  | stop a => cases he
  | finish a hm =>
    cases he
    rfl
  | next hm hs tail =>
    cases he
    rfl

theorem isChain_next (h : Chain table a entries z) :
    entries.IsChain fun e f : Entry =>
      ∃ n : Nat, e.line.size table = .ok n ∧ f.address = e.address + n := by
  induction h with
  | stop a => exact .nil
  | finish a hm => exact .singleton _
  | next hm hs tail ih =>
    rw [List.isChain_cons]
    refine ⟨?_, ih⟩
    intro f hf
    exact ⟨_, hs, tail.head_address hf⟩

theorem end_of_mem_dropLast (h : Chain table a entries z) {e : Entry} (he : e ∈ entries.dropLast) :
    e.line.mnemonic ≠ "END" := by
  induction h with
  | stop a => cases he
  | finish a hm => cases he
  | @next a z line n rest hm hs tail ih =>
    cases rest with
    | nil => cases he
    | cons f rest =>
      rw [List.dropLast_cons_cons] at he
      rcases List.mem_cons.mp he with rfl | he
      · exact hm
      · exact ih he

/-- A chain ends at the statement that ends it, or after its last statement. -/
theorem last_address (h : Chain table a entries z) {e : Entry} (he : entries.getLast? = some e) :
    (e.line.mnemonic = "END" → e.address = z) ∧
      (e.line.mnemonic ≠ "END" → ∃ n : Nat, e.line.size table = .ok n ∧ z = e.address + n) := by
  induction h with
  | stop a => cases he
  | finish a hm =>
    cases he
    exact ⟨fun _ => rfl, fun hne => absurd hm hne⟩
  | @next a z line n rest hm hs tail ih =>
    cases rest with
    | nil =>
      cases he
      cases tail
      exact ⟨fun hend => absurd hend hm, fun _ => ⟨n, hs, rfl⟩⟩
    | cons f rest => exact ih (by rwa [List.getLast?_cons_cons] at he)

theorem eq_of_nil (h : Chain table a [] z) : z = a := by
  cases h
  rfl

theorem pairwise_address (h : Chain table a entries z) :
    entries.Pairwise fun e f => e.address ≤ f.address := by
  induction h with
  | stop a => exact .nil
  | finish a hm => exact List.pairwise_singleton _ _
  | next hm hs tail ih =>
    refine List.pairwise_cons.mpr ⟨?_, ih⟩
    intro f hf
    have := (tail.address_mem hf).1
    dsimp only
    omega

end Chain

/-- A scan takes statements in order, and leaves some only after one that ends the program. -/
theorem scan_statements {statements : List (Except Diagnostic SourceLine)} :
    ∀ {counter : LocationCounter} {symbols : SymbolTable} {s : Scan},
      (scan table duplicates filename counter symbols statements).result = .ok s →
      ∃ after, statements = s.entries.map (fun e => .ok e.line) ++ after ∧
        (after = [] ∨ ∃ e, s.entries.getLast? = some e ∧ e.line.mnemonic = "END") := by
  induction statements with
  | nil =>
    intro counter symbols s h
    simp only [scan, Logged.result_bind_eq_ok, Logged.result_pure, Except.ok.injEq] at h
    obtain ⟨_, _, rfl⟩ := h
    exact ⟨[], rfl, .inl rfl⟩
  | cons statement rest ih =>
    intro counter symbols s h
    cases statement with
    | error d => simp [scan] at h
    | ok line =>
      by_cases hm : line.mnemonic = "END"
      · rw [scan, if_pos hm, Logged.result_pure, Except.ok.injEq] at h
        subst h
        exact ⟨rest, rfl, .inr ⟨_, rfl, hm⟩⟩
      · obtain ⟨entered, n, t, -, -, -, ht, rfl⟩ := scan_step hm h
        obtain ⟨after, hafter, hend⟩ := ih ht
        refine ⟨after, by simp [hafter], ?_⟩
        rcases hend with hnil | ⟨e, he, hmnemonic⟩
        · exact .inl hnil
        · refine .inr ⟨e, ?_, hmnemonic⟩
          rw [List.getLast?_cons, he, Option.getD_some]

/-- The statements of a source are those of the listing, and after them what follows the statement
that ends the program. -/
theorem ofLines_statements {policy : Policy} {lines : List String} {l : Layout}
    (h : (ofLines table policy filename lines).result = .ok l) :
    ∃ after, SourceLine.parsed filename lines =
        (l.startEntry.toList ++ l.entries).map (fun e => .ok e.line) ++ after ∧
      (after = [] ∨ ∃ e, l.entries.getLast? = some e ∧ e.line.mnemonic = "END") := by
  obtain ⟨first, rest, hfirst, hbody⟩ := ofLines_cases h
  rw [← SourceLine.statements_eq_parsed, hfirst]
  rcases hbody with ⟨-, start, -, hb⟩ | ⟨-, hb⟩
  · obtain ⟨s, hs, rfl⟩ := body_eq_ok hb
    obtain ⟨after, hafter, hend⟩ := scan_statements hs
    exact ⟨after, by simp [hafter], hend⟩
  · obtain ⟨s, hs, rfl⟩ := body_eq_ok hb
    exact scan_statements hs

theorem mem_statements_of_mem_entries {policy : Policy} {lines : List String} {l : Layout}
    (h : (ofLines table policy filename lines).result = .ok l) {e : Entry} (he : e ∈ l.entries) :
    .ok e.line ∈ SourceLine.statements filename lines := by
  obtain ⟨after, hparsed, -⟩ := ofLines_statements h
  rw [SourceLine.statements_eq_parsed, hparsed]
  apply List.mem_append_left
  exact List.mem_map.mpr ⟨e, List.mem_append_right _ he, rfl⟩

theorem ofLines_head {policy : Policy} {lines : List String} {l : Layout}
    (h : (ofLines table policy filename lines).result = .ok l) :
    ∃ first, (SourceLine.parsed filename lines).head? = some (.ok first) ∧
      (first.mnemonic = "START" ∧ l.startEntry = some ⟨l.program.start, first⟩ ∧
          first.startAddress = .ok l.program.start ∨
        first.mnemonic ≠ "START" ∧ l.startEntry = none ∧ l.program.start = 0) := by
  obtain ⟨first, rest, hfirst, hbody⟩ := ofLines_cases h
  rw [← SourceLine.statements_eq_parsed, hfirst]
  refine ⟨first, rfl, ?_⟩
  rcases hbody with ⟨hm, start, hstart, hb⟩ | ⟨hm, hb⟩
  · obtain ⟨s, -, rfl⟩ := body_eq_ok hb
    exact .inl ⟨hm, rfl, hstart⟩
  · obtain ⟨s, -, rfl⟩ := body_eq_ok hb
    exact .inr ⟨hm, rfl, rfl⟩

end Layout

/-- The listing of a source has its statements that are not comments, in order, up to the one that
ends the program, and a `START` statement at the head apart. The first entry stands at the start of
the program, each other one where the entry before it ends, and the program ends at its `END`
statement or after the last entry. -/
theorem listing_is_source_at_chained_addresses {table : OpcodeTable} {policy : Policy}
    {filename : String} {lines : List String} {l : Layout}
    (h : (Layout.ofLines table policy filename lines).result = .ok l) :
    (∃ after, SourceLine.parsed filename lines =
        (l.startEntry.toList ++ l.entries).map (fun e => .ok e.line) ++ after ∧
      (after = [] ∨ ∃ e, l.entries.getLast? = some e ∧ e.line.mnemonic = "END")) ∧
    (∃ first, (SourceLine.parsed filename lines).head? = some (.ok first) ∧
      (first.mnemonic = "START" ∧ l.startEntry = some ⟨l.program.start, first⟩ ∧
          first.startAddress = .ok l.program.start ∨
        first.mnemonic ≠ "START" ∧ l.startEntry = none ∧ l.program.start = 0)) ∧
    (∀ e, l.entries.head? = some e → e.address = l.program.start) ∧
    l.entries.IsChain (fun e f : Entry =>
      ∃ n : Nat, e.line.size table = .ok n ∧ f.address = e.address + n) ∧
    (∀ e ∈ l.entries.dropLast, e.line.mnemonic ≠ "END") ∧
    (∀ e, l.entries.getLast? = some e →
      (e.line.mnemonic = "END" → e.address = l.endAddress) ∧
      (e.line.mnemonic ≠ "END" →
        ∃ n : Nat, e.line.size table = .ok n ∧ l.endAddress = e.address + n)) ∧
    (l.entries = [] → l.endAddress = l.program.start) ∧
    l.entries.Pairwise (fun e f => e.address ≤ f.address) ∧
    0 ≤ l.program.start ∧ l.program.start ≤ l.endAddress ∧ l.endAddress ≤ 0xFFFFFF ∧
    l.program.length = l.endAddress - l.program.start := by
  have hlaid := Layout.ofLines_laid h
  have hchain := hlaid.chain
  refine ⟨Layout.ofLines_statements h, Layout.ofLines_head h, ?_, hchain.isChain_next, ?_, ?_, ?_,
    hchain.pairwise_address, hlaid.start_nonneg, hchain.le, hlaid.end_le, hlaid.length_eq⟩
  · intro e he
    exact hchain.head_address he
  · intro e he
    exact hchain.end_of_mem_dropLast he
  · intro e he
    exact hchain.last_address he
  · intro hnil
    rw [hnil] at hchain
    exact hchain.eq_of_nil

/-- Comments and an unknown statement in a program, and after its end a line that is no
statement. -/
def commentedProgram : List String :=
  ["", "P START 1000", ". data", "A LDA B", "B RESW 2", "- FOO X", "C BYTE X'F1'", "- END A", "?"]

theorem listing_of_commented_program :
    ∃ l, (Layout.ofLines .standard {} "<input>" commentedProgram).result = .ok l ∧
      l.entries.map Entry.address = [0x1000, 0x1003, 0x1009, 0x1009, 0x100B] ∧
      (∃ after, SourceLine.parsed "<input>" commentedProgram =
        (l.startEntry.toList ++ l.entries).map (fun e => .ok e.line) ++ after) ∧
      l.entries.IsChain (fun e f : Entry =>
        ∃ n : Nat, e.line.size .standard = .ok n ∧ f.address = e.address + n) ∧
      l.program.length = l.endAddress - l.program.start := by
  have hrun : ∃ l, (Layout.ofLines .standard {} "<input>" commentedProgram).result = .ok l ∧
      decide (l.entries.map Entry.address = [0x1000, 0x1003, 0x1009, 0x1009, 0x100B]) = true :=
    Logged.exists_of_any (by decide +kernel)
  obtain ⟨l, hl, haddresses⟩ := hrun
  obtain ⟨⟨after, hsource, -⟩, -, -, hnext, -, -, -, -, -, -, -, hlength⟩ :=
    listing_is_source_at_chained_addresses hl
  exact ⟨l, hl, of_decide_eq_true haddresses, ⟨after, hsource⟩, hnext, hlength⟩

end SicAssembler
