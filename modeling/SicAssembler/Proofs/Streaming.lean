import SicAssembler.Proofs.Duplicates

/-!
# A source is laid out from the left

Statements are taken one after another, and nothing looks ahead. What was laid out up to a failure or
up to the end of the program stays as it is whatever lines follow, log included. A program that has no
end yet goes on from where it stands.
-/

namespace SicAssembler

namespace Logged

universe u

variable {ε : Type} {α β : Type u}

theorem bind_congr_of_ok {x : Logged ε α} {f g : α → Logged ε β}
    (h : ∀ a, x.result = .ok a → f a = g a) : x >>= f = x >>= g := by
  cases hx : x.result with
  | error e => rw [bind_of_error hx, bind_of_error hx]
  | ok a => rw [bind_of_ok hx, bind_of_ok hx, h a hx]

end Logged

namespace Layout

variable {table : OpcodeTable} {duplicates : DuplicateLabels} {policy : Policy}
  {filename name : String} {startEntry : Option Entry} {start : Int} {lines : List String}
  {statements : List (Except Diagnostic SourceLine)}

/-- A scan that failed or came to the end of the program is not changed by more statements. -/
theorem scan_append_of_settled (more : List (Except Diagnostic SourceLine)) :
    ∀ (counter : LocationCounter) (symbols : SymbolTable),
      (∀ s, (scan table duplicates filename counter symbols statements).result = .ok s →
        ∃ e ∈ s.entries, e.line.mnemonic = "END") →
      scan table duplicates filename counter symbols (statements ++ more) =
        scan table duplicates filename counter symbols statements := by
  induction statements with
  | nil =>
    intro counter symbols h
    obtain ⟨e, he, -⟩ := h ⟨[], symbols, counter⟩ rfl
    cases he
  | cons statement rest ih =>
    intro counter symbols h
    cases statement with
    | error d => rfl
    | ok line =>
      by_cases hm : line.mnemonic = "END"
      · rw [List.cons_append, scan, scan, if_pos hm, if_pos hm]
      · rw [List.cons_append, scan, scan, if_neg hm, if_neg hm]
        apply Logged.bind_congr_of_ok
        intro entered he
        apply Logged.bind_congr_of_ok
        intro after hp
        rw [ih after entered]
        intro t ht
        obtain ⟨e, hmem, hend⟩ := h _ (scan_cons_of_ok hm he hp ht)
        rcases List.mem_cons.mp hmem with rfl | hmem
        · exact absurd hend hm
        · exact ⟨e, hmem, hend⟩

/-- A scan that found no end goes on with more statements from where it stands. -/
theorem scan_append_of_going {more : List (Except Diagnostic SourceLine)} {s' : Scan} :
    ∀ {counter : LocationCounter} {symbols : SymbolTable} {s : Scan},
      (scan table duplicates filename counter symbols statements).result = .ok s →
      (∀ e ∈ s.entries, e.line.mnemonic ≠ "END") →
      (scan table duplicates filename counter symbols (statements ++ more)).result = .ok s' →
      ∃ t, (scan table duplicates filename s.counter s.symbols more).result = .ok t ∧
        s' = { t with entries := s.entries ++ t.entries } := by
  induction statements generalizing s' with
  | nil =>
    intro counter symbols s h _ h'
    cases h
    exact ⟨s', h', rfl⟩
  | cons statement rest ih =>
    intro counter symbols s h hgoing h'
    cases statement with
    | error d => cases h
    | ok line =>
      by_cases hm : line.mnemonic = "END"
      · rw [scan, if_pos hm] at h
        cases h
        exact absurd hm (hgoing _ List.mem_cons_self)
      · obtain ⟨entered, n, t, he, hn, -, ht, rfl⟩ := scan_step hm h
        obtain ⟨entered', n', t', he', hn', -, ht', rfl⟩ := scan_step hm h'
        rw [he, Except.ok.injEq] at he'
        rw [hn, Except.ok.injEq] at hn'
        subst he' hn'
        obtain ⟨u, hu, rfl⟩ := ih ht (fun e hmem => hgoing e (List.mem_cons_of_mem _ hmem)) ht'
        exact ⟨u, hu, rfl⟩

theorem body_append_of_settled (more : List (Except Diagnostic SourceLine))
    (h : ∀ l, (body table duplicates filename name startEntry start statements).result = .ok l →
      ∃ e ∈ l.entries, e.line.mnemonic = "END") :
    body table duplicates filename name startEntry start (statements ++ more) =
      body table duplicates filename name startEntry start statements := by
  rw [body, body, scan_append_of_settled more]
  intro s hs
  exact h _ (Logged.result_bind_eq_ok.mpr ⟨s, hs, rfl⟩)

structure Continues (l l' : Layout) : Prop where
  entries : l.entries <+: l'.entries
  startEntry_eq : l'.startEntry = l.startEntry
  name_eq : l'.program.name = l.program.name
  start_eq : l'.program.start = l.program.start

theorem body_continues {more : List (Except Diagnostic SourceLine)} {l l' : Layout}
    (h : (body table duplicates filename name startEntry start statements).result = .ok l)
    (hgoing : ∀ e ∈ l.entries, e.line.mnemonic ≠ "END")
    (h' : (body table duplicates filename name startEntry start (statements ++ more)).result =
      .ok l') : l.Continues l' := by
  obtain ⟨s, hs, rfl⟩ := body_eq_ok h
  obtain ⟨s', hs', rfl⟩ := body_eq_ok h'
  obtain ⟨t, -, rfl⟩ := scan_append_of_going hs hgoing hs'
  exact ⟨List.prefix_append _ _, rfl, rfl, rfl⟩

theorem ofStatements_append_of_settled (hne : statements ≠ [])
    (more : List (Except Diagnostic SourceLine))
    (h : ∀ l, (ofStatements table duplicates filename statements).result = .ok l →
      ∃ e ∈ l.entries, e.line.mnemonic = "END") :
    ofStatements table duplicates filename (statements ++ more) =
      ofStatements table duplicates filename statements := by
  cases statements with
  | nil => exact absurd rfl hne
  | cons statement rest =>
    cases statement with
    | error d => rfl
    | ok first =>
      by_cases hm : first.mnemonic = "START"
      · rw [ofStatements, if_pos hm] at h
        rw [List.cons_append, ofStatements, ofStatements, if_pos hm, if_pos hm]
        apply Logged.bind_congr_of_ok
        intro start hstart
        apply Logged.bind_congr_of_ok
        rintro ⟨⟩ hnote
        apply body_append_of_settled
        intro l hl
        apply h
        simp only [Logged.result_bind_eq_ok]
        exact ⟨start, hstart, ⟨⟩, hnote, hl⟩
      · rw [ofStatements, if_neg hm] at h
        rw [List.cons_append, ofStatements, ofStatements, if_neg hm, if_neg hm, ← List.cons_append]
        apply Logged.bind_congr_of_ok
        rintro ⟨⟩ hnote
        apply body_append_of_settled
        intro l hl
        exact h l (Logged.result_bind_eq_ok.mpr ⟨⟨⟩, hnote, hl⟩)

theorem statements_append (filename : String) (lines more : List String) :
    SourceLine.statements filename (lines ++ more) =
      SourceLine.statements filename lines ++
        SourceLine.statementsFrom filename (1 + lines.length) more :=
  SourceLine.statementsFrom_append filename 1 lines more

theorem ofLines_append_of_settled (hne : SourceLine.statements filename lines ≠ [])
    (more : List String)
    (h : ∀ l, (ofLines table policy filename lines).result = .ok l →
      ∃ e ∈ l.entries, e.line.mnemonic = "END") :
    ofLines table policy filename (lines ++ more) = ofLines table policy filename lines := by
  rw [ofLines, statements_append, ofStatements_append_of_settled hne _ h, ofLines]

theorem ofLines_continues {more : List String} {l l' : Layout}
    (h : (ofLines table policy filename lines).result = .ok l)
    (hgoing : ∀ e ∈ l.entries, e.line.mnemonic ≠ "END")
    (h' : (ofLines table policy filename (lines ++ more)).result = .ok l') : l.Continues l' := by
  obtain ⟨first, rest, hfirst, hbody⟩ := ofLines_cases h
  obtain ⟨first', rest', hfirst', hbody'⟩ := ofLines_cases h'
  rw [statements_append, hfirst, List.cons_append, List.cons.injEq, Except.ok.injEq] at hfirst'
  obtain ⟨rfl, rfl⟩ := hfirst'
  rcases hbody with ⟨hm, start, hstart, hb⟩ | ⟨hm, hb⟩
  · rcases hbody' with ⟨-, start', hstart', hb'⟩ | ⟨hm', -⟩
    · rw [hstart, Except.ok.injEq] at hstart'
      subst hstart'
      exact body_continues hb hgoing hb'
    · exact absurd hm hm'
  · rcases hbody' with ⟨hm', -⟩ | ⟨-, hb'⟩
    · exact absurd hm' hm
    · exact body_continues hb hgoing hb'

theorem Laid.endEntry_eq_none_iff {l : Layout} (h : Laid table l) :
    l.endEntry = none ↔ ∀ e ∈ l.entries, e.line.mnemonic ≠ "END" := by
  unfold endEntry
  cases hlast : l.entries.getLast? with
  | none => simp [List.getLast?_eq_none_iff.mp hlast]
  | some e =>
    have hmem := List.mem_of_getLast? hlast
    by_cases hm : e.line.mnemonic = "END"
    · simp only [Option.filter_some, hm, decide_true, if_true, reduceCtorEq, false_iff]
      intro hgoing
      exact hgoing e hmem hm
    · simp only [Option.filter_some, hm, decide_false, Bool.false_eq_true, if_false, true_iff]
      intro f hf
      rw [← List.dropLast_append_getLast? e hlast] at hf
      rcases List.mem_append.mp hf with hf | hf
      · exact h.chain.end_of_mem_dropLast hf
      · rw [List.mem_singleton.mp hf]
        exact hm

end Layout

open Layout

/-- Lines that follow a failure, other than that of a source without statements, or that follow the
end of the program change nothing: layout, diagnostic and log are the same. A program without an end
keeps its entries, its head and its labels when lines are added. -/
theorem layout_does_not_look_ahead (table : OpcodeTable) (policy : Policy) (filename : String)
    (lines more : List String) :
    (∀ d, (ofLines table policy filename lines).result = .error d →
      d.problem ≠ .emptySource filename →
      ofLines table policy filename (lines ++ more) = ofLines table policy filename lines) ∧
    (∀ l, (ofLines table policy filename lines).result = .ok l → l.endEntry.isSome = true →
      ofLines table policy filename (lines ++ more) = ofLines table policy filename lines) ∧
    (∀ l l', (ofLines table policy filename lines).result = .ok l → l.endEntry = none →
      (ofLines table policy filename (lines ++ more)).result = .ok l' →
      l.entries <+: l'.entries ∧ l'.startEntry = l.startEntry ∧
        l'.program.name = l.program.name ∧ l'.program.start = l.program.start ∧
        ∀ label, l.symbols.contains label = true → l'.symbols.contains label = true) := by
  refine ⟨?_, ?_, ?_⟩
  · intro d hd hnonempty
    apply ofLines_append_of_settled
    · intro hnil
      rw [ofLines, hnil] at hd
      cases hd
      exact hnonempty rfl
    · intro l hl
      rw [hd] at hl
      cases hl
  · intro l hl hend
    obtain ⟨first, rest, hfirst, -⟩ := ofLines_cases hl
    apply ofLines_append_of_settled
    · rw [hfirst]
      exact List.cons_ne_nil _ _
    · intro l' hl'
      rw [hl, Except.ok.injEq] at hl'
      subst hl'
      by_contra hno
      have hnone := (ofLines_laid hl).endEntry_eq_none_iff.mpr fun e he hm => hno ⟨e, he, hm⟩
      rw [hnone] at hend
      cases hend
  · intro l l' hl hend hl'
    have hgoing := (ofLines_laid hl).endEntry_eq_none_iff.mp hend
    have hcontinues := ofLines_continues hl hgoing hl'
    refine ⟨hcontinues.entries, hcontinues.startEntry_eq, hcontinues.name_eq,
      hcontinues.start_eq, ?_⟩
    intro label hlabel
    obtain ⟨e, he, hdefines⟩ := ((symbolsOfListing hl).contains_iff label).mp hlabel
    exact ((symbolsOfListing hl').contains_iff label).mpr
      ⟨e, hcontinues.entries.subset he, hdefines⟩

def openProgram : List String := ["P START 1000", "A LDA B"]

/-- The program goes on to its end, after which a malformed line is not read; a line that cannot be
laid out is not saved by an end after it. -/
theorem layout_of_growing_program :
    (∃ l l', (ofLines .standard {} "<input>" openProgram).result = .ok l ∧ l.endEntry = none ∧
      (ofLines .standard {} "<input>" (openProgram ++ ["B WORD 5", "- END P"])).result = .ok l' ∧
      l'.endEntry.isSome = true ∧ l.entries <+: l'.entries ∧ l'.symbols.contains "A" = true) ∧
    ofLines .standard {} "<input>" ((openProgram ++ ["B WORD 5", "- END P"]) ++ ["?"]) =
      ofLines .standard {} "<input>" (openProgram ++ ["B WORD 5", "- END P"]) ∧
    ∃ d, (ofLines .standard {} "<input>" (openProgram ++ ["B RESW x"])).result = .error d ∧
      d.problem = .countNotDecimal "RESW" "x" ∧
      ofLines .standard {} "<input>" ((openProgram ++ ["B RESW x"]) ++ ["- END P"]) =
        ofLines .standard {} "<input>" (openProgram ++ ["B RESW x"]) := by
  have hopen : ∃ l, (ofLines .standard {} "<input>" openProgram).result = .ok l ∧
      decide (l.endEntry = none ∧ l.symbols.contains "A" = true) = true :=
    Logged.exists_of_any (by decide +kernel)
  have hclosed : ∃ l, (ofLines .standard {} "<input>"
      (openProgram ++ ["B WORD 5", "- END P"])).result = .ok l ∧ l.endEntry.isSome = true :=
    Logged.exists_of_any (by decide +kernel)
  have hfails : (ofLines .standard {} "<input>" (openProgram ++ ["B RESW x"])).result =
      .error ⟨.countNotDecimal "RESW" "x", some ⟨"<input>", 3, 8⟩, some "B RESW x", none⟩ := by
    decide +kernel
  obtain ⟨l, hl, hfacts⟩ := hopen
  obtain ⟨l', hl', hend⟩ := hclosed
  obtain ⟨hnone, hlabel⟩ := of_decide_eq_true hfacts
  obtain ⟨-, -, hgrows⟩ := layout_does_not_look_ahead .standard {} "<input>" openProgram
    ["B WORD 5", "- END P"]
  obtain ⟨-, hends, -⟩ := layout_does_not_look_ahead .standard {} "<input>"
    (openProgram ++ ["B WORD 5", "- END P"]) ["?"]
  obtain ⟨hstays, -⟩ := layout_does_not_look_ahead .standard {} "<input>"
    (openProgram ++ ["B RESW x"]) ["- END P"]
  obtain ⟨hentries, -, -, -, hlabels⟩ := hgrows l l' hl hnone hl'
  refine ⟨⟨l, l', hl, hnone, hl', hend, hentries, hlabels "A" hlabel⟩, hends l' hl' hend,
    _, hfails, rfl, hstays _ hfails ?_⟩
  intro h
  cases h

end SicAssembler
