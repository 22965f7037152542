import SicAssembler.Assembly.Basic
import Mathlib.Data.List.Forall2

/-!
# Statements that are written otherwise

Where a statement stands and how it is spaced shows only in diagnostics. Two programs whose
statements have the same fields up to the end are laid out alike and have the same object program,
or fail for the same reason.
-/

namespace SicAssembler

/-- Two outcomes that go together: results that are related by `R`, or failures that are related
by `E`. -/
inductive SameOutcome {ε δ α β : Type} (E : ε → δ → Prop) (R : α → β → Prop) :
    Except ε α → Except δ β → Prop where
  | ok {a : α} {b : β} (h : R a b) : SameOutcome E R (.ok a) (.ok b)
  | error {d : ε} {e : δ} (h : E d e) : SameOutcome E R (.error d) (.error e)

namespace SameOutcome

variable {ε δ ζ η α β γ κ : Type} {E : ε → δ → Prop} {F : ζ → η → Prop} {R : α → β → Prop}
  {S : γ → κ → Prop}

theorem map {x : Except ε α} {y : Except δ β} (h : SameOutcome E R x y) {f : α → γ} {g : β → κ}
    (hf : ∀ a b, R a b → S (f a) (g b)) : SameOutcome E S (x.map f) (y.map g) := by
  cases h with
  | ok h => exact .ok (hf _ _ h)
  | error h => exact .error h

theorem imp {T : α → β → Prop} {x : Except ε α} {y : Except δ β} (h : SameOutcome E R x y)
    (hR : ∀ a b, R a b → T a b) : SameOutcome E T x y := by
  cases h with
  | ok h => exact .ok (hR _ _ h)
  | error h => exact .error h

theorem bind {x : Logged ε α} {y : Logged δ β} (h : SameOutcome E R x.result y.result)
    {f : α → Logged ε γ} {g : β → Logged δ κ}
    (hf : ∀ a b, R a b → SameOutcome E S (f a).result (g b).result) :
    SameOutcome E S (x >>= f).result (y >>= g).result := by
  generalize hx : x.result = rx at h
  generalize hy : y.result = ry at h
  cases h with
  | ok h =>
    rw [Logged.bind_of_ok hx, Logged.bind_of_ok hy]
    exact hf _ _ h
  | error h =>
    rw [Logged.bind_of_error hx, Logged.bind_of_error hy]
    exact .error h

theorem mapError {x : Logged ε α} {y : Logged δ β} (h : SameOutcome E R x.result y.result)
    {f : ε → ζ} {g : δ → η} (hf : ∀ d e, E d e → F (f d) (g e)) :
    SameOutcome F R (x.mapError f).result (y.mapError g).result := by
  obtain ⟨logx, resultx⟩ := x
  obtain ⟨logy, resulty⟩ := y
  cases h with
  | ok h => exact .ok h
  | error h => exact .error (hf _ _ h)

theorem note {x : Logged ε α} {y : Logged δ β} (h : SameOutcome E R x.result y.result)
    (n n' : Notice) :
    SameOutcome E R (Logged.note n >>= fun _ => x).result
      (Logged.note n' >>= fun _ => y).result := by
  rw [Logged.bind_of_ok (Logged.result_note n), Logged.bind_of_ok (Logged.result_note n')]
  exact h

end SameOutcome

/-- Ways to write statements and diagnostics that go together: related statements have the same
fields, and what is wrong with one is wrong with the other. -/
structure Rewording (filename filename' : String) (L : SourceLine → SourceLine → Prop)
    (E : Diagnostic → Diagnostic → Prop) : Prop where
  label_eq : ∀ {l l'}, L l l' → l.label = l'.label
  mnemonic_eq : ∀ {l l'}, L l l' → l.mnemonic = l'.mnemonic
  operand_eq : ∀ {l l'}, L l l' → l.operand = l'.operand
  operandFault : ∀ {l l'} p, L l l' → E (l.operandFault p) (l'.operandFault p)
  duplicate : ∀ {l l'} name a, L l l' →
    E (SymbolTable.duplicate name a (some l)) (SymbolTable.duplicate name a (some l'))
  overflow : ∀ a, E ⟨.counterOverflow a, none, none, none⟩ ⟨.counterOverflow a, none, none, none⟩
  emptySource :
    E ⟨.emptySource filename, none, none, none⟩ ⟨.emptySource filename', none, none, none⟩

/-- Statements that go together one by one, up to the end of the program or to what is no
statement. -/
inductive SamePrograms (L : SourceLine → SourceLine → Prop) (E : Diagnostic → Diagnostic → Prop) :
    List (Except Diagnostic SourceLine) → List (Except Diagnostic SourceLine) → Prop where
  | nil : SamePrograms L E [] []
  | error {d d' : Diagnostic} (h : E d d') (rest rest' : List (Except Diagnostic SourceLine)) :
      SamePrograms L E (.error d :: rest) (.error d' :: rest')
  | finish {l l' : SourceLine} (h : L l l') (hm : l.mnemonic = "END")
      (rest rest' : List (Except Diagnostic SourceLine)) :
      SamePrograms L E (.ok l :: rest) (.ok l' :: rest')
  | next {l l' : SourceLine} {rest rest' : List (Except Diagnostic SourceLine)} (h : L l l')
      (tail : SamePrograms L E rest rest') : SamePrograms L E (.ok l :: rest) (.ok l' :: rest')

/-- Entries at the same address whose statements go together. -/
structure Entry.Alike (L : SourceLine → SourceLine → Prop) (e e' : Entry) : Prop where
  address_eq : e.address = e'.address
  line : L e.line e'.line

namespace Layout

/-- Layouts that differ only in how their statements are written. -/
structure Alike (L : SourceLine → SourceLine → Prop) (l l' : Layout) : Prop where
  program_eq : l.program = l'.program
  symbols_eq : l.symbols = l'.symbols
  endAddress_eq : l.endAddress = l'.endAddress
  startEntry : List.Forall₂ (Entry.Alike L) l.startEntry.toList l'.startEntry.toList
  entries : List.Forall₂ (Entry.Alike L) l.entries l'.entries

structure Scan.Alike (L : SourceLine → SourceLine → Prop) (s s' : Scan) : Prop where
  entries : List.Forall₂ (Entry.Alike L) s.entries s'.entries
  symbols_eq : s.symbols = s'.symbols
  counter_eq : s.counter = s'.counter

end Layout

/-- Faults of one kind, with diagnostics that are related by `E`. -/
inductive Fault.Alike (E : Diagnostic → Diagnostic → Prop) : Fault → Fault → Prop where
  | diagnostic {d d' : Diagnostic} (h : E d d') : Alike E (.diagnostic d) (.diagnostic d')
  | record (f : RecordFault) : Alike E (.record f) (.record f)

theorem Fault.alike_mapError (E : Diagnostic → Diagnostic → Prop) {α : Type}
    (x : Logged RecordFault α) :
    SameOutcome (Fault.Alike E) Eq (x.mapError .record).result (x.mapError .record).result := by
  obtain ⟨log, result⟩ := x
  cases result with
  | ok a => exact .ok rfl
  | error f => exact .error (.record f)

namespace Rewording

variable {filename filename' : String} {L : SourceLine → SourceLine → Prop}
  {E : Diagnostic → Diagnostic → Prop} {l l' : SourceLine} {table : OpcodeTable}
  {symbols : SymbolTable} {undefinedSymbols : UndefinedSymbols} {duplicates : DuplicateLabels}

theorem ofLine (w : Rewording filename filename' L E) (h : L l l') :
    SameOutcome E Eq (ByteLiteral.ofLine l) (ByteLiteral.ofLine l') := by
  rw [ByteLiteral.ofLine, ByteLiteral.ofLine, w.operand_eq h]
  cases ByteLiteral.read l'.operand with
  | ok b => exact .ok rfl
  | error p => exact .error (w.operandFault p h)

theorem count (w : Rewording filename filename' L E) (h : L l l') :
    SameOutcome E Eq l.count l'.count := by
  rw [SourceLine.count, SourceLine.count, w.operand_eq h, w.mnemonic_eq h]
  cases Text.decimal? l'.operand with
  | none => exact .error (w.operandFault _ h)
  | some n =>
    dsimp only
    split
    · exact .error (w.operandFault _ h)
    · exact .ok rfl

theorem size (w : Rewording filename filename' L E) (h : L l l') :
    SameOutcome E Eq (l.size table) (l'.size table) := by
  rw [SourceLine.size, SourceLine.size, w.mnemonic_eq h]
  split
  · exact .ok rfl
  · split
    · exact (w.ofLine h).map fun a b hab => by rw [hab]
    · split
      · exact (w.count h).map fun a b hab => by rw [hab]
      · split
        · exact w.count h
        · exact .ok rfl

theorem startAddress (w : Rewording filename filename' L E) (h : L l l') :
    SameOutcome E Eq l.startAddress l'.startAddress := by
  rw [SourceLine.startAddress, SourceLine.startAddress, w.operand_eq h]
  cases Text.hexadecimal? l'.operand with
  | none => exact .error (w.operandFault _ h)
  | some start =>
    dsimp only
    split
    · exact .ok rfl
    · exact .error (w.operandFault _ h)

theorem hasLabel_eq (w : Rewording filename filename' L E) (h : L l l') :
    l.hasLabel = l'.hasLabel := by
  rw [SourceLine.hasLabel, SourceLine.hasLabel, w.label_eq h]

theorem enterLabel (w : Rewording filename filename' L E) (h : L l l') (address : Int) :
    SameOutcome E Eq (Layout.enterLabel duplicates symbols address l).result
      (Layout.enterLabel duplicates symbols address l').result := by
  rw [Layout.enterLabel, Layout.enterLabel, w.hasLabel_eq h, w.label_eq h]
  split
  · unfold SymbolTable.define
    cases symbols.get? l'.label with
    | none => exact .ok rfl
    | some before =>
      cases duplicates with
      | overwrite => exact .ok rfl
      | reject => exact .error (w.duplicate _ _ h)
  · exact .ok rfl

theorem passOver (w : Rewording filename filename' L E) (h : L l l') (counter : LocationCounter) :
    SameOutcome E Eq (Layout.passOver table counter l).result
      (Layout.passOver table counter l').result := by
  apply SameOutcome.bind (w.size h)
  rintro n _ rfl
  have hadvance : SameOutcome E Eq (counter.advance n).toLogged.result
      (counter.advance n).toLogged.result := by
    rw [LocationCounter.advance]
    dsimp only
    split
    · exact .error (w.overflow _)
    · exact .ok rfl
  rw [Logged.bind_of_ok (Logged.result_noteIf _ _), Logged.bind_of_ok (Logged.result_noteIf _ _)]
  exact hadvance

/-- Statements that go together are laid out alike. -/
theorem scan (w : Rewording filename filename' L E)
    {statements statements' : List (Except Diagnostic SourceLine)}
    (h : SamePrograms L E statements statements') :
    ∀ (counter : LocationCounter) (symbols : SymbolTable),
      SameOutcome E (Layout.Scan.Alike L)
        (Layout.scan table duplicates filename counter symbols statements).result
        (Layout.scan table duplicates filename' counter symbols statements').result := by
  induction h with
  | nil =>
    intro counter symbols
    exact .ok ⟨.nil, rfl, rfl⟩
  | error h rest rest' =>
    intro counter symbols
    exact .error h
  | finish h hm rest rest' =>
    intro counter symbols
    have hm' := (w.mnemonic_eq h).symm.trans hm
    rw [Layout.scan, Layout.scan, if_pos hm, if_pos hm']
    exact .ok ⟨.cons ⟨rfl, h⟩ .nil, rfl, rfl⟩
  | next h tail ih =>
    intro counter symbols
    rw [Layout.scan, Layout.scan, w.mnemonic_eq h]
    split
    · exact .ok ⟨.cons ⟨rfl, h⟩ .nil, rfl, rfl⟩
    · apply SameOutcome.bind (w.enterLabel h _)
      rintro entered _ rfl
      apply SameOutcome.bind (w.passOver h _)
      rintro after _ rfl
      apply SameOutcome.bind (ih after entered)
      intro s s' hs
      exact .ok ⟨.cons ⟨rfl, h⟩ hs.entries, hs.symbols_eq, hs.counter_eq⟩

theorem body (w : Rewording filename filename' L E)
    {statements statements' : List (Except Diagnostic SourceLine)}
    (h : SamePrograms L E statements statements') {startEntry startEntry' : Option Entry}
    (hstart : List.Forall₂ (Entry.Alike L) startEntry.toList startEntry'.toList) (name : String)
    (start : Int) :
    SameOutcome E (Layout.Alike L)
      (Layout.body table duplicates filename name startEntry start statements).result
      (Layout.body table duplicates filename' name startEntry' start statements').result := by
  apply SameOutcome.bind (w.scan h _ _)
  intro s s' hs
  apply SameOutcome.note
  refine .ok ⟨?_, hs.symbols_eq, ?_, hstart, hs.entries⟩
  · dsimp only
    rw [hs.counter_eq]
  · dsimp only
    rw [hs.counter_eq]

theorem ofStatements (w : Rewording filename filename' L E)
    {statements statements' : List (Except Diagnostic SourceLine)}
    (h : SamePrograms L E statements statements') :
    SameOutcome E (Layout.Alike L)
      (Layout.ofStatements table duplicates filename statements).result
      (Layout.ofStatements table duplicates filename' statements').result := by
  have hbody : SameOutcome E (Layout.Alike L)
      (Layout.body table duplicates filename "" none 0 statements).result
      (Layout.body table duplicates filename' "" none 0 statements').result := w.body h .nil "" 0
  cases h with
  | nil => exact .error w.emptySource
  | error h rest rest' => exact .error h
  | @finish l l' h hm rest rest' =>
    have hstart : l.mnemonic ≠ "START" := by
      rw [hm]
      decide
    rw [Layout.ofStatements, Layout.ofStatements, ← w.mnemonic_eq h, if_neg hstart, if_neg hstart]
    exact hbody.note _ _
  | @next l l' rest rest' h tail =>
    rw [Layout.ofStatements, Layout.ofStatements, w.mnemonic_eq h]
    split
    · have hname : l.programName = l'.programName := by
        rw [SourceLine.programName, SourceLine.programName, w.hasLabel_eq h, w.label_eq h]
      rw [hname]
      apply SameOutcome.bind (w.startAddress h)
      rintro start _ rfl
      exact (w.body tail (.cons ⟨rfl, h⟩ .nil) _ _).note _ _
    · exact hbody.note _ _

theorem operandAddress (w : Rewording filename filename' L E) (h : L l l') :
    SameOutcome E Eq (l.operandAddress symbols undefinedSymbols).result
      (l'.operandAddress symbols undefinedSymbols).result := by
  unfold SourceLine.operandAddress
  rw [w.operand_eq h]
  split
  · exact .ok rfl
  · cases symbols.get? l'.operand with
    | none =>
      cases undefinedSymbols with
      | lenient => exact .ok rfl
      | strict =>
        rw [SourceLine.undefinedOperand, SourceLine.undefinedOperand, w.operand_eq h]
        exact .error (w.operandFault _ h)
    | some address =>
      dsimp only
      split
      · exact .error (w.operandFault _ h)
      · exact .ok rfl

theorem word (w : Rewording filename filename' L E) (h : L l l') :
    SameOutcome E Eq l.word l'.word := by
  rw [SourceLine.word, SourceLine.word, w.operand_eq h]
  cases Text.decimal? l'.operand with
  | none => exact .error (w.operandFault _ h)
  | some value =>
    dsimp only
    split
    · exact .ok rfl
    · exact .error (w.operandFault _ h)

theorem encode (w : Rewording filename filename' L E) (h : L l l') :
    SameOutcome E Eq (ByteLiteral.encode l) (ByteLiteral.encode l') := by
  have hliteral := w.ofLine h
  rw [ByteLiteral.encode, ByteLiteral.encode, w.operand_eq h]
  generalize ByteLiteral.ofLine l = x at hliteral ⊢
  generalize ByteLiteral.ofLine l' = y at hliteral ⊢
  cases hliteral with
  | error h => exact .error h
  | @ok b _ hb =>
    subst hb
    dsimp only
    cases b.code? with
    | some code => exact .ok rfl
    | none => exact .error (w.operandFault _ h)

theorem emission (w : Rewording filename filename' L E) (h : L l l') :
    SameOutcome E Eq (l.emission table symbols undefinedSymbols).result
      (l'.emission table symbols undefinedSymbols).result := by
  rw [SourceLine.emission, SourceLine.emission, w.mnemonic_eq h]
  cases table.get? l'.mnemonic with
  | some code =>
    apply SameOutcome.bind (w.operandAddress h)
    rintro address _ rfl
    exact .ok rfl
  | none =>
    dsimp only
    split
    · exact (w.word h).map fun a b hab => by rw [hab]
    · split
      · exact (w.encode h).map fun a b hab => by rw [hab]
      · split
        · exact .ok rfl
        · exact .ok rfl

/-- Entries that go together are packed alike. -/
theorem pack (w : Rewording filename filename' L E) {entries entries' : List Entry}
    (h : List.Forall₂ (Entry.Alike L) entries entries') :
    ∀ p : Packer, SameOutcome (Fault.Alike E) Eq
      (ObjectProgram.pack table symbols undefinedSymbols p entries).result
      (ObjectProgram.pack table symbols undefinedSymbols p entries').result := by
  induction h with
  | nil =>
    intro p
    exact .ok rfl
  | @cons e e' rest rest' h tail ih =>
    intro p
    have hend : e.isEnd = e'.isEnd := by
      rw [Entry.isEnd, Entry.isEnd, w.mnemonic_eq h.line, w.operand_eq h.line]
    rw [ObjectProgram.pack, ObjectProgram.pack, hend]
    split
    · exact .ok rfl
    · apply SameOutcome.bind ((w.emission h.line).mapError fun _ _ => .diagnostic)
      rintro em _ rfl
      rw [h.address_eq]
      apply SameOutcome.bind (Fault.alike_mapError E _)
      rintro q _ rfl
      exact ih q

theorem header_eq {l l' : Layout} (h : l.Alike L l') :
    ObjectProgram.header l = ObjectProgram.header l' := by
  have hstart := h.startEntry
  rw [ObjectProgram.header, ObjectProgram.header, h.program_eq]
  cases hl : l.startEntry with
  | none =>
    cases hl' : l'.startEntry with
    | none => rfl
    | some e' => simp [hl, hl'] at hstart
  | some e =>
    cases hl' : l'.startEntry with
    | none => simp [hl, hl'] at hstart
    | some e' =>
      simp only [hl, hl', Option.toList_some, List.forall₂_cons, List.Forall₂.nil, and_true]
        at hstart
      simp only [hstart.address_eq]

theorem ofLayout (w : Rewording filename filename' L E) {l l' : Layout} (h : l.Alike L l')
    (policy : Policy) :
    SameOutcome (Fault.Alike E) Eq (ObjectProgram.ofLayout table policy l).result
      (ObjectProgram.ofLayout table policy l').result := by
  rw [ObjectProgram.ofLayout, ObjectProgram.ofLayout, header_eq h, h.symbols_eq, h.program_eq]
  apply SameOutcome.bind (Fault.alike_mapError E _)
  rintro first _ rfl
  apply SameOutcome.bind (w.pack h.entries _)
  rintro q _ rfl
  apply SameOutcome.bind (Fault.alike_mapError E _)
  rintro q _ rfl
  apply SameOutcome.bind (Fault.alike_mapError E _)
  rintro last _ rfl
  exact .ok rfl

end Rewording

/-- Assemblies that differ only in how their statements are written. -/
structure Assembly.Alike (L : SourceLine → SourceLine → Prop) (a b : Assembly) : Prop where
  layout : a.layout.Alike L b.layout
  records_eq : a.records = b.records

/-- Statements that go together are assembled alike. -/
theorem Rewording.ofTable {filename filename' : String} {L : SourceLine → SourceLine → Prop}
    {E : Diagnostic → Diagnostic → Prop} (w : Rewording filename filename' L E)
    {lines lines' : List String}
    (h : SamePrograms L E (SourceLine.statements filename lines)
      (SourceLine.statements filename' lines')) (policy : Policy) (table : OpcodeTable) :
    SameOutcome (Fault.Alike E) (Assembly.Alike L)
      (Assembly.ofTable policy table filename lines).result
      (Assembly.ofTable policy table filename' lines').result := by
  apply SameOutcome.note
  apply SameOutcome.bind ((w.ofStatements h).mapError fun _ _ => .diagnostic)
  intro l l' hl
  apply SameOutcome.bind (w.ofLayout hl policy)
  rintro records _ rfl
  exact .ok ⟨hl, rfl⟩

end SicAssembler
