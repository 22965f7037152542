import SicAssembler.Proofs.CodeWidth
import SicAssembler.Proofs.Labels

/-!
# The first label that is defined again

Where labels may not be defined again, a run stops at the first line that does so. What stands
before that line can be laid out and has no label twice, and the diagnostic shows the address of the
entry that has the label already.
-/

namespace SicAssembler

structure SourceLine.DirectiveFault (l : SourceLine) (d : Diagnostic) : Prop where
  family_eq : d.problem.family = .directive
  eq_operandFault : d = l.operandFault d.problem

namespace ByteLiteral

theorem family_of_read {operand : String} {p : Problem} (h : read operand = .error p) :
    p.family = .directive := by
  unfold read at h
  split at h
  · split at h
    · dsimp only at h
      split at h
      · cases h
      · split at h
        · cases h
        · cases h
          rfl
      · cases h
        rfl
    · cases h
      rfl
  · cases h
    rfl

theorem directiveFault_of_ofLine {line : SourceLine} {d : Diagnostic}
    (h : ofLine line = .error d) : line.DirectiveFault d := by
  unfold ofLine at h
  cases hread : read line.operand with
  | ok b =>
    rw [hread] at h
    cases h
  | error p =>
    rw [hread] at h
    cases h
    exact ⟨family_of_read hread, rfl⟩

end ByteLiteral

namespace SourceLine

variable {table : OpcodeTable} {l : SourceLine} {d : Diagnostic}

theorem family_of_parse {text filename : String} {n : Int} (h : parse text n filename = .error d) :
    d.problem.family = .sourceLine := by
  unfold parse at h
  dsimp only at h
  split at h
  · cases h
  · cases h
    rfl

theorem family_of_statements {filename : String} {lines : List String}
    (h : .error d ∈ statements filename lines) : d.problem.family = .sourceLine := by
  rw [statements_eq_parsed] at h
  obtain ⟨x, -, hx⟩ := List.mem_map.mp h
  exact family_of_parse hx

theorem directiveFault_of_startAddress (h : l.startAddress = .error d) : l.DirectiveFault d := by
  unfold startAddress at h
  split at h
  · cases h
    exact ⟨rfl, rfl⟩
  · split at h
    · cases h
    · cases h
      exact ⟨rfl, rfl⟩

theorem directiveFault_of_count (h : l.count = .error d) : l.DirectiveFault d := by
  unfold count at h
  split at h
  · cases h
    exact ⟨rfl, rfl⟩
  · split at h
    · cases h
      exact ⟨rfl, rfl⟩
    · cases h

theorem directiveFault_of_size (h : l.size table = .error d) : l.DirectiveFault d := by
  have hmap : ∀ {α β : Type} {x : Except Diagnostic α} {f : α → β}, x.map f = .error d →
      x = .error d := by
    intro α β x f hx
    cases x with
    | ok a => cases hx
    | error e =>
      cases hx
      rfl
  unfold size at h
  split at h
  · cases h
  · split at h
    · exact ByteLiteral.directiveFault_of_ofLine (hmap h)
    · split at h
      · exact directiveFault_of_count (hmap h)
      · split at h
        · exact directiveFault_of_count h
        · cases h

/-- A statement of a source, with what stands before it, is read from a line with what stands
before that. -/
theorem exists_line_of_statementsFrom {filename : String} {lines : List String} :
    ∀ {n : Nat} {before after : List (Except Diagnostic SourceLine)}
      {statement : Except Diagnostic SourceLine},
      statementsFrom filename n lines = before ++ statement :: after →
      ∃ linesBefore text linesAfter, lines = linesBefore ++ text :: linesAfter ∧
        statementsFrom filename n linesBefore = before ∧ isComment text = false ∧
        parse text (n + linesBefore.length : Nat) filename = statement := by
  induction lines with
  | nil =>
    intro n before after statement h
    cases before <;> cases h
  | cons text rest ih =>
    intro n before after statement h
    rw [statementsFrom] at h
    by_cases hc : isComment text = true
    · rw [if_pos hc] at h
      obtain ⟨linesBefore, line, linesAfter, rfl, hbefore, hcomment, hparse⟩ := ih h
      refine ⟨text :: linesBefore, line, linesAfter, rfl, ?_, hcomment, ?_⟩
      · rw [statementsFrom, if_pos hc, hbefore]
      · rw [← hparse, List.length_cons, Nat.add_right_comm, Nat.add_assoc]
    · rw [if_neg hc] at h
      cases before with
      | nil =>
        rw [List.nil_append, List.cons.injEq] at h
        exact ⟨[], text, rest, rfl, rfl, by simpa using hc, h.1⟩
      | cons first before =>
        rw [List.cons_append, List.cons.injEq] at h
        obtain ⟨linesBefore, line, linesAfter, rfl, hbefore, hcomment, hparse⟩ := ih h.2
        refine ⟨text :: linesBefore, line, linesAfter, rfl, ?_, hcomment, ?_⟩
        · rw [statementsFrom, if_neg hc, hbefore, h.1]
        · rw [← hparse, List.length_cons, Nat.add_right_comm, Nat.add_assoc]

end SourceLine

namespace Layout

variable {table : OpcodeTable} {duplicates : DuplicateLabels} {policy : Policy}
  {filename : String} {d : Diagnostic} {line : SourceLine}

theorem enterLabel_eq_error {symbols : SymbolTable} {address : Int}
    (h : (enterLabel duplicates symbols address line).result = .error d) :
    duplicates = .reject ∧ line.hasLabel = true ∧ ∃ before,
      symbols.get? line.label = some before ∧
        d = SymbolTable.duplicate line.label before (some line) := by
  unfold enterLabel at h
  split at h
  · rename_i hl
    unfold SymbolTable.define at h
    split at h
    · rename_i before hbefore
      cases h
      exact ⟨rfl, hl, before, hbefore, rfl⟩
    · cases h
    · cases h
  · cases h

theorem family_of_passOver {counter : LocationCounter}
    (h : (passOver table counter line).result = .error d) :
    d.problem.family ≠ .duplicateSymbol := by
  simp only [passOver, Logged.result_bind_eq_error, Logged.result_ofExcept, Logged.result_noteIf,
    reduceCtorEq, false_or] at h
  rcases h with hsize | ⟨n, -, _, -, hadvance⟩
  · rw [(SourceLine.directiveFault_of_size hsize).family_eq]
    decide
  · unfold LocationCounter.advance at hadvance
    dsimp only at hadvance
    split at hadvance
    · cases hadvance
      exact Family.noConfusion
    · cases hadvance

/-- Labels that are entered where none may be defined again are new. -/
theorem enterLabel_reject_eq_ok {symbols entered : SymbolTable} {address : Int}
    (h : (enterLabel .reject symbols address line).result = .ok entered) :
    line.hasLabel = true → symbols.get? line.label = none ∧
      entered = symbols.insert line.label address := by
  intro hl
  rw [enterLabel, if_pos hl] at h
  refine ⟨?_, define_eq_ok h⟩
  cases hget : symbols.get? line.label with
  | none => rfl
  | some before => simp [SymbolTable.define, hget, Step.refused] at h

theorem labels_cons (e : Entry) (entries : List Entry) :
    labels (e :: entries) =
      if e.isLabelled then e.line.label :: labels entries else labels entries := by
  rw [labels, List.filter_cons]
  split
  · rfl
  · rfl

/-- Where labels may not be defined again, a scan enters each label once and none that was there
before. -/
theorem scan_nodup {statements : List (Except Diagnostic SourceLine)} :
    ∀ {counter : LocationCounter} {symbols : SymbolTable} {s : Scan},
      (scan table .reject filename counter symbols statements).result = .ok s →
      (labels s.entries).Nodup ∧ ∀ name ∈ labels s.entries, symbols.get? name = none := by
  induction statements with
  | nil =>
    intro counter symbols s h
    simp only [scan, Logged.result_bind_eq_ok, Logged.result_pure, Except.ok.injEq] at h
    obtain ⟨_, _, rfl⟩ := h
    exact ⟨.nil, List.forall_mem_nil _⟩
  | cons statement rest ih =>
    intro counter symbols s h
    cases statement with
    | error e => simp [scan] at h
    | ok line =>
      by_cases hm : line.mnemonic = "END"
      · rw [scan, if_pos hm, Logged.result_pure, Except.ok.injEq] at h
        subst h
        rw [labels_cons, if_neg (by simp [Entry.isLabelled, hm])]
        exact ⟨.nil, List.forall_mem_nil _⟩
      · obtain ⟨entered, n, t, he, -, -, ht, rfl⟩ := scan_step hm h
        obtain ⟨hnodup, hnew⟩ := ih ht
        dsimp only
        rw [labels_cons]
        by_cases hl : line.hasLabel = true
        · obtain ⟨hnone, rfl⟩ := enterLabel_reject_eq_ok he hl
          have hne : ∀ name ∈ labels t.entries, name ≠ line.label := by
            rintro name hname rfl
            have hsome := hnew _ hname
            rw [Dictionary.get?_insert_self] at hsome
            cases hsome
          rw [if_pos (by simp [Entry.isLabelled, hl, hm])]
          refine ⟨List.nodup_cons.mpr ⟨fun hmem => hne _ hmem rfl, hnodup⟩, ?_⟩
          rw [List.forall_mem_cons]
          refine ⟨hnone, ?_⟩
          intro name hname
          rw [← Dictionary.get?_insert_of_ne symbols (hne name hname)]
          exact hnew name hname
        · rw [enterLabel, if_neg hl] at he
          cases he
          rw [if_neg (by simp [Entry.isLabelled, hl])]
          exact ⟨hnodup, hnew⟩

/-- Entries after which a statement cannot be taken, because its label has an address already. -/
structure Refuses (entries : List Entry) (symbols : SymbolTable) (line : SourceLine)
    (d : Diagnostic) : Prop where
  going : ∀ e ∈ entries, e.line.mnemonic ≠ "END"
  nodup : (labels entries).Nodup
  mnemonic_ne : line.mnemonic ≠ "END"
  hasLabel : line.hasLabel = true
  defined : ∃ address, symbols.get? line.label = some address ∧
    d = SymbolTable.duplicate line.label address (some line)

theorem scan_cons_of_ok {counter after : LocationCounter} {symbols entered : SymbolTable}
    {rest : List (Except Diagnostic SourceLine)} {t : Scan} (hm : line.mnemonic ≠ "END")
    (he : (enterLabel duplicates symbols counter.value line).result = .ok entered)
    (hp : (passOver table counter line).result = .ok after)
    (ht : (scan table duplicates filename after entered rest).result = .ok t) :
    (scan table duplicates filename counter symbols (.ok line :: rest)).result =
      .ok { t with entries := ⟨counter.value, line⟩ :: t.entries } := by
  rw [scan, if_neg hm]
  simp only [Logged.result_bind_eq_ok]
  exact ⟨entered, he, after, hp, t, ht, rfl⟩

/-- A scan stops for a label at the first statement that defines one again. -/
theorem scan_duplicate {statements : List (Except Diagnostic SourceLine)}
    (hread : ∀ e, .error e ∈ statements → e.problem.family = .sourceLine)
    (hd : d.problem.family = .duplicateSymbol) :
    ∀ {counter : LocationCounter} {symbols : SymbolTable},
      (scan table duplicates filename counter symbols statements).result = .error d →
      duplicates = .reject ∧ ∃ before line after s, statements = before ++ .ok line :: after ∧
        (scan table .reject filename counter symbols before).result = .ok s ∧
        Refuses s.entries s.symbols line d := by
  induction statements with
  | nil =>
    intro counter symbols h
    cases h
  | cons statement rest ih =>
    intro counter symbols h
    cases statement with
    | error e =>
      cases h
      rw [hread d List.mem_cons_self] at hd
      cases hd
    | ok line =>
      by_cases hm : line.mnemonic = "END"
      · rw [scan, if_pos hm] at h
        cases h
      · rw [scan, if_neg hm] at h
        simp only [Logged.result_bind_eq_error, Logged.result_pure, reduceCtorEq, and_false,
          exists_false, or_false] at h
        rcases h with hlabel | ⟨entered, he, hpass | ⟨after, hp, hrest⟩⟩
        · obtain ⟨rfl, hl, hdefined⟩ := enterLabel_eq_error hlabel
          exact ⟨rfl, [], line, rest, ⟨[], symbols, counter⟩, rfl, rfl,
            List.forall_mem_nil _, .nil, hm, hl, hdefined⟩
        · exact absurd hd (family_of_passOver hpass)
        · obtain ⟨rfl, before, refused, more, t, rfl, ht, hrefuses⟩ :=
            ih (fun e hmem => hread e (List.mem_cons_of_mem _ hmem)) hrest
          have hscan := scan_cons_of_ok hm he hp ht
          refine ⟨rfl, .ok line :: before, refused, more, _, rfl, hscan, ?_⟩
          exact { hrefuses with
            going := List.forall_mem_cons.mpr ⟨hm, hrefuses.going⟩
            nodup := (scan_nodup hscan).1 }

/-- The line of a source at which the first label is defined again, and the entry that has the label
already. -/
inductive FirstDuplicate (table : OpcodeTable) (policy : Policy) (filename : String) :
    List String → SourceLine → Entry → Prop where
  | intro {before after : List String} {text : String} {line : SourceLine} {l : Layout} {e : Entry}
      (hbefore : (ofLines table policy filename before).result = .ok l)
      (hgoing : ∀ f ∈ l.entries, f.line.mnemonic ≠ "END")
      (hnodup : (labels l.entries).Nodup)
      (hcomment : SourceLine.isComment text = false)
      (hparse : SourceLine.parse text (before.length + 1) filename = .ok line)
      (hm : line.mnemonic ≠ "END") (hl : line.hasLabel = true)
      (he : e ∈ l.entries) (hlabel : e.defines line.label = true) :
      FirstDuplicate table policy filename (before ++ text :: after) line e

theorem body_duplicate {name : String} {startEntry : Option Entry} {start : Int}
    {statements : List (Except Diagnostic SourceLine)}
    (hread : ∀ e, .error e ∈ statements → e.problem.family = .sourceLine)
    (hd : d.problem.family = .duplicateSymbol)
    (h : (body table duplicates filename name startEntry start statements).result = .error d) :
    ∃ before line after l, statements = before ++ .ok line :: after ∧ before ≠ [] ∧
      (body table duplicates filename name startEntry start before).result = .ok l ∧
      Refuses l.entries l.symbols line d := by
  simp only [body, Logged.result_bind_eq_error, Logged.result_note, Logged.result_pure,
    reduceCtorEq, and_false, exists_false, or_false] at h
  obtain ⟨rfl, before, line, after, s, hsplit, hs, hrefuses⟩ := scan_duplicate hread hd h
  refine ⟨before, line, after, _, hsplit, ?_, Logged.result_bind_eq_ok.mpr ⟨s, hs, rfl⟩, hrefuses⟩
  rintro rfl
  -- Before the first statement no label has an address.
  obtain ⟨address, haddress, -⟩ := hrefuses.defined
  cases hs
  cases haddress

theorem ofStatements_duplicate {statements : List (Except Diagnostic SourceLine)}
    (hread : ∀ e, .error e ∈ statements → e.problem.family = .sourceLine)
    (hd : d.problem.family = .duplicateSymbol)
    (h : (ofStatements table duplicates filename statements).result = .error d) :
    ∃ before line after l, statements = before ++ .ok line :: after ∧
      (ofStatements table duplicates filename before).result = .ok l ∧
      Refuses l.entries l.symbols line d := by
  cases statements with
  | nil =>
    cases h
    cases hd
  | cons statement rest =>
    cases statement with
    | error e =>
      cases h
      rw [hread d List.mem_cons_self] at hd
      cases hd
    | ok first =>
      rw [ofStatements] at h
      split at h
      · rename_i hm
        simp only [Logged.result_bind_eq_error, Logged.result_ofExcept, Logged.result_note,
          reduceCtorEq, false_or] at h
        rcases h with hstart | ⟨start, hstart, _, -, hbody⟩
        · rw [(SourceLine.directiveFault_of_startAddress hstart).family_eq] at hd
          cases hd
        · obtain ⟨before, line, after, l, rfl, -, hl, hrefuses⟩ :=
            body_duplicate (fun e he => hread e (List.mem_cons_of_mem _ he)) hd hbody
          refine ⟨.ok first :: before, line, after, l, rfl, ?_, hrefuses⟩
          rw [ofStatements, if_pos hm]
          simp only [Logged.result_bind_eq_ok]
          exact ⟨start, hstart, ⟨⟩, rfl, hl⟩
      · rename_i hm
        simp only [Logged.result_bind_eq_error, Logged.result_note, reduceCtorEq, false_or] at h
        obtain ⟨_, -, hbody⟩ := h
        obtain ⟨before, line, after, l, hsplit, hne, hl, hrefuses⟩ :=
          body_duplicate hread hd hbody
        refine ⟨before, line, after, l, hsplit, ?_, hrefuses⟩
        cases before with
        | nil => exact absurd rfl hne
        | cons statement before =>
          rw [List.cons_append, List.cons.injEq] at hsplit
          obtain ⟨rfl, -⟩ := hsplit
          rw [ofStatements, if_neg hm, Logged.result_bind_eq_ok]
          exact ⟨⟨⟩, rfl, hl⟩

/-- A layout that fails for a label fails at the first line that defines one again, with the address
of the entry that has it. -/
theorem ofLines_duplicate {lines : List String}
    (h : (ofLines table policy filename lines).result = .error d)
    (hd : d.problem.family = .duplicateSymbol) :
    ∃ line e, FirstDuplicate table policy filename lines line e ∧
      d = SymbolTable.duplicate line.label e.address (some line) := by
  obtain ⟨before, line, after, l, hsplit, hl, hrefuses⟩ :=
    ofStatements_duplicate (fun e => SourceLine.family_of_statements) hd h
  obtain ⟨linesBefore, text, linesAfter, rfl, rfl, hcomment, hparse⟩ :=
    SourceLine.exists_line_of_statementsFrom hsplit
  have hlayout : (ofLines table policy filename linesBefore).result = .ok l := hl
  obtain ⟨address, haddress, rfl⟩ := hrefuses.defined
  rw [(ofLines_laid hlayout).symbols_get?] at haddress
  obtain ⟨_, e, _, hentries, hdefines, -, rfl⟩ := lastDefined_eq_some.mp haddress
  have he : e ∈ l.entries := by
    rw [hentries]
    exact List.mem_append_right _ List.mem_cons_self
  rw [Nat.add_comm] at hparse
  exact ⟨line, e, .intro hlayout hrefuses.going hrefuses.nodup hcomment hparse
    hrefuses.mnemonic_ne hrefuses.hasLabel he hdefines, rfl⟩

end Layout

namespace OpcodeEntry

variable {filename : String} {d : Diagnostic}

theorem family_of_parse {text : String} {n : Int} (h : parse text n filename = .error d) :
    d.problem.family = .opcodeEntry := by
  unfold parse at h
  dsimp only at h
  split at h
  · split at h
    · cases h
    · cases h
      rfl
  · cases h
    rfl

theorem family_of_parseFrom {lines : List String} :
    ∀ {n : Nat}, parseFrom filename n lines = .error d → d.problem.family = .opcodeEntry := by
  induction lines with
  | nil =>
    intro n h
    cases h
  | cons text rest ih =>
    intro n h
    rw [parseFrom] at h
    split at h
    · exact ih h
    · split at h
      · cases hrest : parseFrom filename (n + 1) rest with
        | ok entries =>
          rw [hrest] at h
          cases h
        | error e =>
          rw [hrest] at h
          cases h
          exact ih hrest
      · rename_i hparse
        cases h
        exact family_of_parse hparse

end OpcodeEntry

namespace OpcodeTable

variable {filename : String} {d : Diagnostic}

theorem exists_addAll (entries : List OpcodeEntry) :
    ∀ table : OpcodeTable, ∃ after,
      (table.addAll entries : Logged Diagnostic OpcodeTable).result = .ok after := by
  induction entries with
  | nil =>
    intro table
    exact ⟨table, rfl⟩
  | cons e entries ih =>
    intro table
    have hadd : (table.add e : Logged Diagnostic OpcodeTable).result =
        .ok (table.insert e.mnemonic e.code) := by
      unfold add
      dsimp only
      split
      · split
        · rfl
        · rfl
      · rfl
    obtain ⟨after, hafter⟩ := ih (table.insert e.mnemonic e.code)
    exact ⟨after, Logged.result_bind_eq_ok.mpr ⟨_, hadd, hafter⟩⟩

theorem family_of_load {lines : List String} (h : (load filename lines).result = .error d) :
    d.problem.family = .opcodeEntry := by
  simp only [load, Logged.result_bind_eq_error, Logged.result_ofExcept, Logged.result_note,
    Logged.result_pure, reduceCtorEq, and_false, exists_false, or_false] at h
  rcases h with hparse | ⟨entries, -, hadd⟩
  · exact OpcodeEntry.family_of_parseFrom hparse
  · obtain ⟨after, hafter⟩ := exists_addAll entries .empty
    rw [ofEntries, hafter] at hadd
    cases hadd

end OpcodeTable

theorem OpcodeSource.family_of_load {opcodes : OpcodeSource} {filename : String} {d : Diagnostic}
    (h : (opcodes.load filename).result = .error d) : d.problem.family = .opcodeEntry := by
  cases opcodes with
  | standard => cases h
  | ready table => cases h
  | text contents => exact OpcodeTable.family_of_load h
  | lines contents => exact OpcodeTable.family_of_load h

theorem SourceLine.Unencodable.family_ne {table : OpcodeTable} {symbols : SymbolTable}
    {undefinedSymbols : UndefinedSymbols} {l : SourceLine} {p : Problem} {f : Family}
    (h : l.Unencodable table symbols undefinedSymbols p)
    (hf : f ∉ [Family.general, .undefinedSymbol, .directive]) : p.family ≠ f := by
  rintro rfl
  apply hf
  rw [h.family_eq]
  split
  · split
    · decide
    · decide
  · decide

theorem Assembly.ofLines_duplicate {policy : Policy} {opcodes : OpcodeSource} {filename : String}
    {lines : List String} {d : Diagnostic}
    (h : (Assembly.ofLines policy opcodes filename lines).result = .error (.diagnostic d))
    (hd : d.problem.family = .duplicateSymbol) :
    ∃ table line e, (opcodes.load opcodesName).result = .ok table ∧
      Layout.FirstDuplicate table policy filename lines line e ∧
      d = SymbolTable.duplicate line.label e.address (some line) := by
  rcases ofLines_eq_error_iff.mp h with
    ⟨_, hload, ⟨⟩⟩ | ⟨table, hload, ⟨_, hlayout, ⟨⟩⟩ | ⟨l, hl, hrecords⟩⟩
  · rw [OpcodeSource.family_of_load hload] at hd
    cases hd
  · obtain ⟨line, e, hfirst, heq⟩ := Layout.ofLines_duplicate hlayout hd
    exact ⟨table, line, e, hload, hfirst, heq⟩
  · rcases ObjectProgram.ofLayout_eq_error hrecords with ⟨r, hr⟩ | ⟨e, he, _, hemission, ⟨⟩⟩
    · cases hr
    · obtain ⟨n, hn, -, -⟩ := (Layout.ofLines_laid hl).inside_of_mem_coded he
      obtain ⟨p, hp, rfl⟩ := SourceLine.exists_unencodable hn hemission
      exact absurd hd (hp.family_ne (by decide))

end SicAssembler
