import SicAssembler.Proofs.Fields
import SicAssembler.Proofs.Listing
import SicAssembler.Proofs.Rewording

/-!
# Spacing and comments do not matter

A run depends only on the fields of its lines up to the statement that ends the program. Blanks,
line ends, comments and what follows the end change no artifact, and of a failure only the place
and the line that is shown.
-/

namespace SicAssembler

namespace SourceLine

def endsProgram : List String → Bool
  | [_, mnemonic, _] => mnemonic = "END"
  | _ => false

/-- The fields of lines up to the statement that ends the program, and of all of them if there is
none. -/
def throughEnd : List (List String) → List (List String)
  | [] => []
  | fields :: rest => if endsProgram fields then [fields] else fields :: throughEnd rest

/-- The fields that a source gives to the assembler: those of the lines that are not comments, up to
the end of the program. -/
def programFields (lines : List String) : List (List String) :=
  throughEnd ((lines.filter (!isComment ·)).map Text.fields)

theorem head?_throughEnd (fields : List String) (rest : List (List String)) :
    (throughEnd (fields :: rest)).head? = some fields := by
  rw [throughEnd]
  split
  · rfl
  · rfl

theorem throughEnd_cons_inj {f g : List String} {rest rest' : List (List String)}
    (h : throughEnd (f :: rest) = throughEnd (g :: rest')) :
    f = g ∧ (endsProgram f = false → throughEnd rest = throughEnd rest') := by
  have heads := congrArg List.head? h
  rw [head?_throughEnd, head?_throughEnd, Option.some.injEq] at heads
  refine ⟨heads, ?_⟩
  intro hend
  subst heads
  simpa [throughEnd, hend] using h

theorem endsProgram_of_parse {text filename : String} {n : Int} {line : SourceLine}
    (h : parse text n filename = .ok line) :
    endsProgram (Text.fields text) = decide (line.mnemonic = "END") := by
  rw [(parse_eq_ok.mp h).1]
  rfl

section Programs

variable {L : SourceLine → SourceLine → Prop} {E : Diagnostic → Diagnostic → Prop}
  {filename filename' : String}

/-- Lines with the same fields are read alike: as statements with these fields, or as no statements
for the same number of fields. -/
theorem parse_alike {s t : String} (h : Text.fields s = Text.fields t) {m n : Int}
    (hok : ∀ label mnemonic operand,
      L ⟨label, mnemonic, operand, m, filename, Text.chomp s⟩
        ⟨label, mnemonic, operand, n, filename', Text.chomp t⟩)
    (herror : ∀ found,
      E ⟨.sourceFields found, some ⟨filename, m, 0⟩, some (Text.chomp s), none⟩
        ⟨.sourceFields found, some ⟨filename', n, 0⟩, some (Text.chomp t), none⟩) :
    SameOutcome E L (parse s m filename) (parse t n filename') := by
  unfold parse
  dsimp only
  rw [Text.fields_chomp, Text.fields_chomp, h]
  split
  · exact .ok (hok _ _ _)
  · exact .error (herror _)

/-- Where lines with the same fields are read alike, lines with the same fields up to the end of the
program give statements that go together. -/
theorem samePrograms_of_throughEnd
    (hparse : ∀ {s t : String} (m n : Int), Text.fields s = Text.fields t →
      SameOutcome E L (parse s m filename) (parse t n filename'))
    {xs : List (String × Nat)} :
    ∀ {ys : List (String × Nat)},
      throughEnd (xs.map fun x => Text.fields x.1) = throughEnd (ys.map fun y => Text.fields y.1) →
      SamePrograms L E (xs.map fun x => parse x.1 x.2 filename)
        (ys.map fun y => parse y.1 y.2 filename') := by
  have hne : ∀ fields rest, throughEnd (fields :: rest) ≠ [] := by
    intro fields rest hnil
    have hhead := head?_throughEnd fields rest
    rw [hnil] at hhead
    cases hhead
  induction xs with
  | nil =>
    intro ys h
    cases ys with
    | nil => exact .nil
    | cons y ys => exact absurd h.symm (hne _ _)
  | cons x xs ih =>
    intro ys h
    cases ys with
    | nil => exact absurd h (hne _ _)
    | cons y ys =>
      obtain ⟨hfields, hrest⟩ := throughEnd_cons_inj h
      have hread := hparse x.2 y.2 hfields
      rw [List.map_cons, List.map_cons]
      generalize hx : parse x.1 x.2 filename = outcome at hread ⊢
      generalize parse y.1 y.2 filename' = outcome' at hread ⊢
      cases hread with
      | error hd => exact .error hd _ _
      | @ok line line' hline =>
        by_cases hm : line.mnemonic = "END"
        · exact .finish hline hm _ _
        · apply SamePrograms.next hline (ih (hrest _))
          rw [endsProgram_of_parse hx]
          exact decide_eq_false hm

theorem programFields_eq (lines : List String) :
    programFields lines =
      throughEnd (((lines.zipIdx 1).filter fun x => !isComment x.1).map
        fun x => Text.fields x.1) := by
  have hlines : lines = (lines.zipIdx 1).map Prod.fst := (List.zipIdx_map_fst 1 lines).symm
  rw [programFields]
  nth_rewrite 1 [hlines]
  rw [List.filter_map, List.map_map]
  rfl

theorem samePrograms_of_programFields
    (hparse : ∀ {s t : String} (m n : Int), Text.fields s = Text.fields t →
      SameOutcome E L (parse s m filename) (parse t n filename'))
    {lines lines' : List String} (h : programFields lines = programFields lines') :
    SamePrograms L E (statements filename lines) (statements filename' lines') := by
  rw [programFields_eq, programFields_eq] at h
  rw [statements_eq_parsed, statements_eq_parsed]
  exact samePrograms_of_throughEnd hparse h

end Programs

structure SameFields (l l' : SourceLine) : Prop where
  label_eq : l.label = l'.label
  mnemonic_eq : l.mnemonic = l'.mnemonic
  operand_eq : l.operand = l'.operand

end SourceLine

structure Assembly.SameArtifacts (a b : Assembly) : Prop where
  program_eq : a.program = b.program
  endAddress_eq : a.layout.endAddress = b.layout.endAddress
  listing_eq : a.listing = b.listing
  symbols_eq : a.layout.symbols = b.layout.symbols
  records_eq : a.records = b.records

theorem Assembly.Alike.sameArtifacts {L : SourceLine → SourceLine → Prop} {a b : Assembly}
    (h : a.Alike L b) (hL : ∀ l l', L l l' → l.SameFields l') : a.SameArtifacts b := by
  have hrender : ∀ e e' : Entry, e.Alike L e' → e.render = e'.render := by
    intro e e' he
    have hfields := hL _ _ he.line
    rw [Entry.render, Entry.render, he.address_eq, SourceLine.fields, SourceLine.fields,
      hfields.label_eq, hfields.mnemonic_eq, hfields.operand_eq]
  have hlisting : a.listing = b.listing := by
    have hrows := (List.rel_append h.layout.startEntry h.layout.entries).imp hrender
    rw [Assembly.listing, Assembly.listing, Layout.listing, Layout.listing,
      ← List.forall₂_eq_eq_eq, List.forall₂_map_left_iff, List.forall₂_map_right_iff]
    exact hrows
  exact ⟨h.layout.program_eq, h.layout.endAddress_eq, hlisting, h.layout.symbols_eq, h.records_eq⟩

/-- Diagnostics of one problem, so with one message and of one family, and with the same hint. They
may show different places of a file. -/
structure Diagnostic.SameProblem (d d' : Diagnostic) : Prop where
  problem_eq : d.problem = d'.problem
  hint_eq : d.hint = d'.hint
  filename_eq : d.location.map Location.filename = d'.location.map Location.filename
  quotes_eq : d.sourceLine.isSome = d'.sourceLine.isSome

open SourceLine Diagnostic

structure SourceLine.SameStatement (l l' : SourceLine) : Prop extends SameFields l l' where
  filename_eq : l.filename = l'.filename

theorem rewording_sameStatement (filename : String) :
    Rewording filename filename SameStatement SameProblem where
  label_eq h := h.label_eq
  mnemonic_eq h := h.mnemonic_eq
  operand_eq h := h.operand_eq
  operandFault _ h := ⟨rfl, rfl, congrArg some h.filename_eq, rfl⟩
  duplicate _ _ h := ⟨rfl, rfl, congrArg some h.filename_eq, rfl⟩
  overflow _ := ⟨rfl, rfl, rfl, rfl⟩
  emptySource := ⟨rfl, rfl, rfl, rfl⟩

theorem OpcodeSource.load_alike (opcodes : OpcodeSource) :
    SameOutcome (Fault.Alike SameProblem) Eq
      ((opcodes.load Assembly.opcodesName).mapError .diagnostic).result
      ((opcodes.load Assembly.opcodesName).mapError .diagnostic).result := by
  generalize opcodes.load Assembly.opcodesName = x
  obtain ⟨log, result⟩ := x
  cases result with
  | ok table => exact .ok rfl
  | error d => exact .error (.diagnostic ⟨rfl, rfl, rfl, rfl⟩)

/-- Two sources with the same fields up to the end of the program have the same outcome: results
with the same artifacts, or faults that differ at most in the place that they show. -/
theorem outcome_depends_on_fields {policy : Policy} {opcodes : OpcodeSource} {filename : String}
    {lines lines' : List String} (h : programFields lines = programFields lines') :
    SameOutcome (Fault.Alike SameProblem) Assembly.SameArtifacts
      (Assembly.ofLines policy opcodes filename lines).result
      (Assembly.ofLines policy opcodes filename lines').result := by
  apply SameOutcome.bind opcodes.load_alike
  rintro table _ rfl
  have hstatements : SamePrograms SameStatement SameProblem (statements filename lines)
      (statements filename lines') := by
    apply samePrograms_of_programFields _ h
    intro s t m n hfields
    exact parse_alike hfields (fun _ _ _ => ⟨⟨rfl, rfl, rfl⟩, rfl⟩) fun _ => ⟨rfl, rfl, rfl, rfl⟩
  apply ((rewording_sameStatement filename).ofTable hstatements policy table).imp
  intro a b hab
  exact hab.sameArtifacts fun _ _ hl => hl.toSameFields

def compactProgram : List String := ["P START 1000", "A LDA B", "B LDA NOPE", "- END P"]

/-- The same statements with other blanks and line ends, comments, and a line after the end. -/
def spacedProgram : List String :=
  [". comment", "\tP  START 1000\r\n", "", "A\tLDA  B \n", " .", "B LDA   NOPE", " -\tEND P", "?"]

theorem outcome_of_spaced_program :
    programFields compactProgram = programFields spacedProgram ∧
    (∃ a b, (Assembly.ofLines {} .standard "<input>" compactProgram).result = .ok a ∧
      (Assembly.ofLines {} .standard "<input>" spacedProgram).result = .ok b ∧
      a.layout ≠ b.layout ∧ a.SameArtifacts b) ∧
    ∃ d d', (Assembly.ofLines ⟨.strict, .overwrite⟩ .standard "<input>" compactProgram).result =
        .error (.diagnostic d) ∧
      (Assembly.ofLines ⟨.strict, .overwrite⟩ .standard "<input>" spacedProgram).result =
        .error (.diagnostic d') ∧
      d.location ≠ d'.location ∧ d.SameProblem d' := by
  have hfields : programFields compactProgram = programFields spacedProgram := by decide +kernel
  have hsame : ∀ policy, SameOutcome (Fault.Alike SameProblem) Assembly.SameArtifacts
      (Assembly.ofLines policy .standard "<input>" compactProgram).result
      (Assembly.ofLines policy .standard "<input>" spacedProgram).result :=
    fun _ => outcome_depends_on_fields hfields
  refine ⟨hfields, ?_, ?_⟩
  · have hcompact : ∃ a, (Assembly.ofLines {} .standard "<input>" compactProgram).result = .ok a ∧
        decide (a.layout.startEntry.map (·.line.lineNumber) = some 1) = true :=
      Logged.exists_of_any (by decide +kernel)
    have hspaced : ∃ b, (Assembly.ofLines {} .standard "<input>" spacedProgram).result = .ok b ∧
        decide (b.layout.startEntry.map (·.line.lineNumber) = some 2) = true :=
      Logged.exists_of_any (by decide +kernel)
    obtain ⟨a, ha, hfirst⟩ := hcompact
    obtain ⟨b, hb, hsecond⟩ := hspaced
    have hab := hsame {}
    rw [ha, hb] at hab
    cases hab with
    | ok hab =>
      refine ⟨a, b, ha, hb, ?_, hab⟩
      intro hlayout
      rw [hlayout, of_decide_eq_true hsecond] at hfirst
      cases hfirst
  · have hcompact : (Assembly.ofLines ⟨.strict, .overwrite⟩ .standard "<input>"
        compactProgram).result = .error (.diagnostic ⟨.undefinedSymbol "NOPE" [],
          some ⟨"<input>", 3, 7⟩, some "B LDA NOPE", none⟩) := by decide +kernel
    have hspaced : (Assembly.ofLines ⟨.strict, .overwrite⟩ .standard "<input>"
        spacedProgram).result = .error (.diagnostic ⟨.undefinedSymbol "NOPE" [],
          some ⟨"<input>", 6, 9⟩, some "B LDA   NOPE", none⟩) := by decide +kernel
    have hdiagnostics := hsame ⟨.strict, .overwrite⟩
    rw [hcompact, hspaced] at hdiagnostics
    cases hdiagnostics with
    | error h =>
      cases h with
      | diagnostic h => exact ⟨_, _, hcompact, hspaced, by decide, h⟩

end SicAssembler
