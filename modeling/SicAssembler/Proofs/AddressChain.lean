import SicAssembler.Layout
import SicAssembler.Proofs.InsertionOrder

/-!
# The chain of addresses

A layout that succeeds is a chain: each statement stands where the one before it ends, from the
start of the program to its end, and a statement that ends the program is the last one. The labels
have the addresses of the last statements that carry them.
-/

namespace SicAssembler

/-- Whether a statement enters a name into the symbol table. The statement that ends a program
enters nothing. -/
def Entry.defines (name : String) (e : Entry) : Bool :=
  e.line.hasLabel && e.line.label = name && e.line.mnemonic ≠ "END"

def Entry.isLabelled (e : Entry) : Bool := e.line.hasLabel && e.line.mnemonic ≠ "END"

theorem Entry.defines_eq (name : String) (e : Entry) :
    e.defines name = (e.isLabelled && e.line.label = name) := by
  simp only [defines, isLabelled, Bool.and_right_comm]

namespace Layout

def definitions (entries : List Entry) : List (String × Int) :=
  (entries.filter Entry.isLabelled).map fun e => (e.line.label, e.address)

def lastDefined (name : String) (entries : List Entry) : Option Int :=
  (entries.filter (Entry.defines name)).getLast?.map Entry.address

/-- Statements that stand one after another from one address up to another. -/
inductive Chain (table : OpcodeTable) : Int → List Entry → Int → Prop where
  | stop (a : Int) : Chain table a [] a
  | finish (a : Int) {line : SourceLine} (h : line.mnemonic = "END") :
      Chain table a [⟨a, line⟩] a
  | next {a z : Int} {line : SourceLine} {n : Nat} {rest : List Entry}
      (hm : line.mnemonic ≠ "END") (hs : line.size table = .ok n)
      (tail : Chain table (a + n) rest z) : Chain table a (⟨a, line⟩ :: rest) z

variable {table : OpcodeTable} {duplicates : DuplicateLabels} {filename : String}

theorem Chain.le {a z : Int} {entries : List Entry} (h : Chain table a entries z) : a ≤ z := by
  induction h with
  | stop a => exact Int.le_refl a
  | finish a h => exact Int.le_refl a
  | next hm hs tail ih => omega

theorem Chain.address_mem {a z : Int} {entries : List Entry} (h : Chain table a entries z)
    {e : Entry} (he : e ∈ entries) : a ≤ e.address ∧ e.address ≤ z := by
  induction h with
  | stop a => cases he
  | finish a h =>
    obtain rfl := List.mem_singleton.mp he
    exact ⟨Int.le_refl _, Int.le_refl _⟩
  | next hm hs tail ih =>
    have hz := tail.le
    rcases List.mem_cons.mp he with rfl | he
    · dsimp only
      omega
    · have hi := ih he
      omega

theorem passOver_eq_ok {counter after : LocationCounter} {line : SourceLine}
    (h : (passOver table counter line).result = .ok after) :
    ∃ n : Nat, line.size table = .ok n ∧ counter.value + n ≤ maxAddress ∧
      after = ⟨counter.start, counter.value + n⟩ := by
  simp only [passOver, Logged.result_bind_eq_ok, Logged.result_ofExcept, Logged.result_noteIf,
    Step.result_toLogged_eq_ok, LocationCounter.advance] at h
  obtain ⟨n, hn, _, _, hr, ha⟩ := h
  refine ⟨n, hn, ?_⟩
  split at hr
  · cases hr
  · rename_i hle
    rw [if_neg hle] at ha
    exact ⟨Int.not_lt.mp hle, ha.symm⟩

theorem define_eq_ok {symbols after : SymbolTable} {label : String} {address : Int}
    {line : Option SourceLine}
    (h : (symbols.define duplicates label address line).toLogged.result = .ok after) :
    after = symbols.insert label address := by
  rw [Step.result_toLogged_eq_ok] at h
  unfold SymbolTable.define at h
  split at h
  · exact absurd h.1 (by simp [Step.refused])
  · exact h.2.symm
  · exact h.2.symm

theorem enterLabel_eq_ok {symbols after : SymbolTable} {address : Int} {line : SourceLine}
    (hm : line.mnemonic ≠ "END")
    (h : (enterLabel duplicates symbols address line).result = .ok after) :
    after = symbols.insertAll (definitions [⟨address, line⟩]) := by
  rw [enterLabel] at h
  split at h
  · rename_i hl
    rw [define_eq_ok h]
    simp [definitions, Entry.isLabelled, hl, hm]
  · rename_i hl
    cases h
    simp [definitions, Entry.isLabelled, hl]

/-- One step of a scan: the label, the address after the statement, and the rest of the scan. -/
theorem scan_step {counter : LocationCounter} {symbols : SymbolTable} {line : SourceLine}
    {rest : List (Except Diagnostic SourceLine)} {s : Scan} (hm : line.mnemonic ≠ "END")
    (h : (scan table duplicates filename counter symbols (.ok line :: rest)).result = .ok s) :
    ∃ (entered : SymbolTable) (n : Nat) (t : Scan),
      (enterLabel duplicates symbols counter.value line).result = .ok entered ∧
      line.size table = .ok n ∧ counter.value + n ≤ maxAddress ∧
      (scan table duplicates filename ⟨counter.start, counter.value + n⟩ entered rest).result =
        .ok t ∧
      s = { t with entries := ⟨counter.value, line⟩ :: t.entries } := by
  rw [scan, if_neg hm] at h
  simp only [Logged.result_bind_eq_ok, Logged.result_pure, Except.ok.injEq] at h
  obtain ⟨entered, he, after, hp, t, ht, rfl⟩ := h
  obtain ⟨n, hn, hmax, rfl⟩ := passOver_eq_ok hp
  exact ⟨entered, n, t, he, hn, hmax, ht, rfl⟩

/-- The entries of a scan are a chain that starts where the counter stood. -/
theorem scan_chain {statements : List (Except Diagnostic SourceLine)} :
    ∀ {counter : LocationCounter} {symbols : SymbolTable} {s : Scan},
      (scan table duplicates filename counter symbols statements).result = .ok s →
      Chain table counter.value s.entries s.counter.value ∧ s.counter.start = counter.start ∧
        (counter.value ≤ maxAddress → s.counter.value ≤ maxAddress) := by
  induction statements with
  | nil =>
    intro counter symbols s h
    simp only [scan, Logged.result_bind_eq_ok, Logged.result_pure, Except.ok.injEq] at h
    obtain ⟨_, _, rfl⟩ := h
    exact ⟨.stop _, rfl, id⟩
  | cons statement rest ih =>
    intro counter symbols s h
    cases statement with
    | error d => simp [scan] at h
    | ok line =>
      by_cases hm : line.mnemonic = "END"
      · rw [scan, if_pos hm, Logged.result_pure, Except.ok.injEq] at h
        subst h
        exact ⟨.finish _ hm, rfl, id⟩
      · obtain ⟨entered, n, t, -, hn, hmax, ht, rfl⟩ := scan_step hm h
        obtain ⟨hc, hs, hz⟩ := ih ht
        exact ⟨.next hm hn hc, hs, fun _ => hz hmax⟩

/-- A scan puts the labels of its statements into the table, one after another. -/
theorem scan_symbols {statements : List (Except Diagnostic SourceLine)} :
    ∀ {counter : LocationCounter} {symbols : SymbolTable} {s : Scan},
      (scan table duplicates filename counter symbols statements).result = .ok s →
      s.symbols = symbols.insertAll (definitions s.entries) := by
  induction statements with
  | nil =>
    intro counter symbols s h
    simp only [scan, Logged.result_bind_eq_ok, Logged.result_pure, Except.ok.injEq] at h
    obtain ⟨_, _, rfl⟩ := h
    rfl
  | cons statement rest ih =>
    intro counter symbols s h
    cases statement with
    | error d => simp [scan] at h
    | ok line =>
      by_cases hm : line.mnemonic = "END"
      · rw [scan, if_pos hm, Logged.result_pure, Except.ok.injEq] at h
        subst h
        simp [definitions, Entry.isLabelled, hm]
      · obtain ⟨entered, n, t, he, -, -, ht, rfl⟩ := scan_step hm h
        have hsplit : definitions (⟨counter.value, line⟩ :: t.entries) =
            definitions [⟨counter.value, line⟩] ++ definitions t.entries := by
          rw [definitions, ← List.singleton_append, List.filter_append, List.map_append]
          rfl
        rw [ih ht, enterLabel_eq_ok hm he, hsplit, Dictionary.insertAll_append]

theorem lastOf_definitions (name : String) (entries : List Entry) :
    Dictionary.lastOf name (definitions entries) = lastDefined name entries := by
  have hfilter : (entries.filter Entry.isLabelled).filter (·.line.label = name) =
      entries.filter (Entry.defines name) := by
    rw [List.filter_filter]
    apply List.filter_congr
    intro e _
    rw [Entry.defines_eq, Bool.and_comm]
  rw [Dictionary.lastOf, definitions, List.filter_map, List.getLast?_map, Option.map_map,
    lastDefined, ← hfilter]
  rfl

/-- What every layout of a source program satisfies. -/
structure Laid (table : OpcodeTable) (l : Layout) : Prop where
  start_nonneg : 0 ≤ l.program.start
  chain : Chain table l.program.start l.entries l.endAddress
  end_le : l.endAddress ≤ maxAddress
  length_eq : l.program.length = l.endAddress - l.program.start
  symbols_get? : ∀ name, l.symbols.get? name = lastDefined name l.entries
  head : l.startEntry = none ∧ l.program.start = 0 ∧ l.program.name = "" ∨
    ∃ line, l.startEntry = some ⟨l.program.start, line⟩

theorem body_eq_ok {name : String} {startEntry : Option Entry} {start : Int}
    {statements : List (Except Diagnostic SourceLine)} {l : Layout}
    (h : (body table duplicates filename name startEntry start statements).result = .ok l) :
    ∃ s, (scan table duplicates filename (.startingAt start) .empty statements).result = .ok s ∧
      l = ⟨⟨name, start, s.counter.length⟩, s.symbols, startEntry, s.entries,
        s.counter.value⟩ := by
  simp only [body, Logged.result_bind_eq_ok, Logged.result_pure, Except.ok.injEq] at h
  obtain ⟨s, hs, _, _, rfl⟩ := h
  exact ⟨s, hs, rfl⟩

theorem body_laid {name : String} {startEntry : Option Entry} {start : Int}
    {statements : List (Except Diagnostic SourceLine)} {l : Layout} (h0 : 0 ≤ start)
    (h1 : start ≤ maxAddress)
    (hh : startEntry = none ∧ start = 0 ∧ name = "" ∨ ∃ line, startEntry = some ⟨start, line⟩)
    (h : (body table duplicates filename name startEntry start statements).result = .ok l) :
    Laid table l := by
  obtain ⟨s, hs, rfl⟩ := body_eq_ok h
  obtain ⟨hchain, hstart, hmax⟩ := scan_chain hs
  refine ⟨h0, hchain, hmax h1, ?_, ?_, hh⟩
  · simp only [LocationCounter.length, hstart, LocationCounter.startingAt]
  · intro name
    rw [scan_symbols hs, Dictionary.get?_insertAll, lastOf_definitions]
    simp [Dictionary.get?, Dictionary.empty]

theorem startAddress_eq_ok {line : SourceLine} {start : Int}
    (h : line.startAddress = .ok start) : 0 ≤ start ∧ start ≤ maxAddress := by
  unfold SourceLine.startAddress at h
  split at h
  · cases h
  · split at h
    · rename_i hrange
      cases h
      exact hrange
    · cases h

/-- A source that can be laid out has a first statement. A `START` statement is the head of the
program, and the others are its body; any other statement belongs to the body. -/
theorem ofLines_cases {policy : Policy} {lines : List String} {l : Layout}
    (h : (ofLines table policy filename lines).result = .ok l) :
    ∃ first rest, SourceLine.statements filename lines = .ok first :: rest ∧
      (first.mnemonic = "START" ∧ (∃ start, first.startAddress = .ok start ∧
          (body table policy.duplicateLabels filename first.programName (some ⟨start, first⟩) start
            rest).result = .ok l) ∨
        first.mnemonic ≠ "START" ∧
          (body table policy.duplicateLabels filename "" none 0 (.ok first :: rest)).result =
            .ok l) := by
  unfold ofLines at h
  cases hs : SourceLine.statements filename lines with
  | nil =>
    rw [hs] at h
    cases h
  | cons statement rest =>
    rw [hs] at h
    cases statement with
    | error d => cases h
    | ok first =>
      refine ⟨first, rest, rfl, ?_⟩
      rw [ofStatements] at h
      split at h
      · rename_i hm
        simp only [Logged.result_bind_eq_ok, Logged.result_ofExcept] at h
        obtain ⟨start, hstart, _, _, hb⟩ := h
        exact .inl ⟨hm, start, hstart, hb⟩
      · rename_i hm
        rw [Logged.result_bind_eq_ok] at h
        obtain ⟨_, _, hb⟩ := h
        exact .inr ⟨hm, hb⟩

theorem ofLines_laid {policy : Policy} {lines : List String} {l : Layout}
    (h : (ofLines table policy filename lines).result = .ok l) : Laid table l := by
  obtain ⟨first, rest, -, ⟨-, start, hstart, hb⟩ | ⟨-, hb⟩⟩ := ofLines_cases h
  · obtain ⟨h0, h1⟩ := startAddress_eq_ok hstart
    exact body_laid h0 h1 (.inr ⟨first, rfl⟩) hb
  · exact body_laid (Int.le_refl 0) (by decide) (.inl ⟨rfl, rfl, rfl⟩) hb

end Layout

end SicAssembler
