import SicAssembler.Proofs.Duplicates

/-!
# Where diagnostics point

A diagnostic with a place quotes the line that stands there. One that is about an operand shows the
column of the third field: the operand is searched for from the right, and since only blanks follow
the third field, nothing behind its start can be taken for it. The mark in the text of the diagnostic
stands below the start of that field.
-/

namespace SicAssembler

namespace Text

theorem runs_ne_nil_of_startsField {cs : List Char} (h : startsField cs = true) : runs cs ≠ [] := by
  cases cs with
  | nil => cases h
  | cons c cs =>
    have hc : isBlank c = false := by simpa [startsField] using h
    rw [runs, if_neg (by simp [hc])]
    split
    · cases runs cs <;> exact List.cons_ne_nil _ _
    · exact List.cons_ne_nil _ _

theorem runs_append_blank {c : Char} (hc : isBlank c = true) (cs rest : List Char) :
    runs (cs ++ c :: rest) = runs cs ++ runs rest := by
  have hstart : ∀ cs, startsField (cs ++ c :: rest) = startsField cs := by
    intro cs
    cases cs with
    | nil => simp [startsField, hc]
    | cons d cs => rfl
  induction cs with
  | nil => rw [List.nil_append, runs, runs, if_pos hc, List.nil_append]
  | cons d cs ih =>
    rw [List.cons_append, runs, runs, ih, hstart]
    split
    · rfl
    · split
      · rename_i hfield
        obtain ⟨run, others, hruns⟩ := List.exists_cons_of_ne_nil (runs_ne_nil_of_startsField hfield)
        rw [hruns]
        rfl
      · rfl

/-- A run of characters that are not blank is a field of its own at the end of a text that is empty
or ends with a blank. -/
theorem runs_concat {before run : List Char} (hbefore : ∀ c ∈ before.getLast?, isBlank c = true)
    (hne : run ≠ []) (hrun : ∀ c ∈ run, isBlank c = false) :
    runs (before ++ run) = runs before ++ [run] := by
  have hself := runs_eq_singleton hne hrun
  cases hlast : before.getLast? with
  | none => rw [List.getLast?_eq_none_iff.mp hlast, List.nil_append, hself, runs, List.nil_append]
  | some c =>
    have hc := hbefore c hlast
    rw [← List.dropLast_append_getLast? c hlast, List.append_assoc, List.singleton_append,
      runs_append_blank hc, runs_append_blank hc, hself, runs, List.append_nil]

theorem getLast?_dropEndWhile (p : Char → Bool) (cs : List Char) :
    ∀ c ∈ (dropEndWhile p cs).getLast?, p c = false := by
  intro c hc
  rw [dropEndWhile, List.getLast?_reverse] at hc
  have hhead := List.head?_dropWhile_not p cs.reverse
  rwa [Option.mem_def.mp hc] at hhead

theorem exists_last_run {cs run : List Char} {fields : List (List Char)}
    (h : runs cs = fields ++ [run]) :
    ∃ before blanks, cs = before ++ run ++ blanks ∧ runs before = fields ∧
      (∀ c ∈ before.getLast?, isBlank c = true) ∧ ∀ c ∈ blanks, isBlank c = true := by
  let body := dropEndWhile isBlank cs
  let blanks := (cs.reverse.takeWhile isBlank).reverse
  let before := dropEndWhile (!isBlank ·) body
  let last := (body.reverse.takeWhile (!isBlank ·)).reverse
  have hcs : body ++ blanks = cs := dropEndWhile_append isBlank cs
  have hbody : before ++ last = body := dropEndWhile_append (!isBlank ·) body
  have hblanks : ∀ c ∈ blanks, isBlank c = true := by
    intro c hc
    exact List.mem_takeWhile_imp (List.mem_reverse.mp hc)
  have hlast : ∀ c ∈ last, isBlank c = false := by
    intro c hc
    simpa using List.mem_takeWhile_imp (List.mem_reverse.mp hc)
  have hbefore : ∀ c ∈ before.getLast?, isBlank c = true := by
    intro c hc
    simpa using getLast?_dropEndWhile (!isBlank ·) body c hc
  have hruns : runs body = fields ++ [run] := by
    rw [← h, ← hcs, runs_append_blanks hblanks]
  -- Without a last run the body would end with a blank.
  have hne : last ≠ [] := by
    intro hnil
    rw [hnil, List.append_nil] at hbody
    cases hend : body.getLast? with
    | none =>
      rw [List.getLast?_eq_none_iff.mp hend, runs] at hruns
      simp at hruns
    | some c =>
      have hblank := hbefore c (by rw [hbody, hend]; rfl)
      rw [getLast?_dropEndWhile isBlank cs c hend] at hblank
      cases hblank
  rw [← hbody, runs_concat hbefore hne hlast, List.append_singleton_inj] at hruns
  obtain ⟨hfields, hrun⟩ := hruns
  exact ⟨before, blanks, by rw [← hrun, hbody, hcs], hfields, hbefore, hblanks⟩

theorem lastIndex?_append {needle cs : List Char} {i : Nat} (h : lastIndex? needle cs = some i)
    (before : List Char) : lastIndex? needle (before ++ cs) = some (before.length + i) := by
  induction before with
  | nil => simpa using h
  | cons c before ih =>
    rw [List.cons_append, lastIndex?, ih, List.length_cons, Nat.add_right_comm]

theorem lastIndex?_eq_none {needle cs : List Char} (h : ¬needle <:+: cs) :
    lastIndex? needle cs = none := by
  induction cs with
  | nil =>
    have hne : needle ≠ [] := by
      rintro rfl
      exact h (List.infix_refl _)
    simp [lastIndex?, hne]
  | cons c cs ih =>
    rw [List.infix_cons_iff, not_or] at h
    have hprefix : ¬needle.isPrefixOf (c :: cs) = true := by
      rw [List.isPrefixOf_iff_prefix]
      exact h.1
    rw [lastIndex?, ih h.2]
    exact if_neg hprefix

/-- A field before blanks is found where it stands: behind its first character too few characters
that are not blank are left for another one. -/
theorem lastIndex?_field {before run blanks : List Char} (hne : run ≠ [])
    (hrun : ∀ c ∈ run, isBlank c = false) (hblanks : ∀ c ∈ blanks, isBlank c = true) :
    lastIndex? run (before ++ run ++ blanks) = some before.length := by
  obtain ⟨c, rest, rfl⟩ := List.exists_cons_of_ne_nil hne
  have hnone : lastIndex? (c :: rest) (rest ++ blanks) = none := by
    apply lastIndex?_eq_none
    intro hinfix
    have hcount : (c :: rest).countP (!isBlank ·) ≤ (rest ++ blanks).countP (!isBlank ·) :=
      hinfix.sublist.countP_le
    have hzero : blanks.countP (!isBlank ·) = 0 := by
      rw [List.countP_eq_zero]
      intro d hd
      simp [hblanks d hd]
    have hc : isBlank c = false := hrun c List.mem_cons_self
    rw [List.countP_append, hzero, List.countP_cons_of_pos (by simp [hc])] at hcount
    omega
  have hfound : lastIndex? (c :: rest) (c :: rest ++ blanks) = some 0 := by
    have hprefix : (c :: rest).isPrefixOf (c :: (rest ++ blanks)) = true := by
      rw [List.isPrefixOf_iff_prefix, ← List.cons_append]
      exact List.prefix_append _ _
    rw [List.cons_append, lastIndex?, hnone]
    exact if_pos hprefix
  rw [List.append_assoc]
  exact lastIndex?_append hfound before

end Text

/-- A text whose third and last field starts at a column, counted from one: two fields and a blank
stand before it, and only blanks after it. -/
inductive Text.ThirdFieldAt : String → Int → String → Prop where
  | intro {before field blanks : String} (hbefore : (fields before).length = 2)
      (hend : ∀ c ∈ before.toList.getLast?, isBlank c = true) (hfield : fields field = [field])
      (hblanks : ∀ c ∈ blanks.toList, isBlank c = true) :
      ThirdFieldAt (before ++ field ++ blanks) (before.length + 1) field

theorem Text.ThirdFieldAt.one_le {source field : String} {column : Int}
    (h : ThirdFieldAt source column field) : 1 ≤ column := by
  cases h
  omega

namespace Diagnostic

/-- The text of a diagnostic that has a place and a line: what is wrong, the line four columns in, a
mark below the column if there is one, and the advice. -/
theorem text_of_location {d : Diagnostic} {place : Location} {source : String}
    (hplace : d.location = some place) (hsource : d.sourceLine = some source)
    (hcolumn : 0 ≤ place.column) :
    d.text = String.intercalate "\n" (d.heading :: ("    " ++ source) ::
      ((if place.column = 0 then []
        else [String.ofList (List.replicate (4 + place.column - 1).toNat ' ' ++ ['^'])]) ++
          d.advisory)) := by
  have hcaret : caret place.column = if place.column = 0 then []
      else [String.ofList (List.replicate (4 + place.column - 1).toNat ' ' ++ ['^'])] := by
    unfold caret
    by_cases h : place.column = 0
    · rw [if_pos h, if_neg (by omega)]
    · rw [if_neg h, if_pos (by omega), show 3 + place.column = 4 + place.column - 1 by omega]
  rw [text, quotation, hplace, hsource, ← hcaret]
  rfl

end Diagnostic

namespace SourceLine

variable {table : OpcodeTable} {filename text : String} {lines : List String} {n : Int}
  {line : SourceLine} {d : Diagnostic}

/-- The operand of a statement that was read is the third field of its line, and its column is where
that field starts. -/
theorem thirdFieldAt_operandColumn (h : parse text n filename = .ok line) :
    Text.ThirdFieldAt line.text line.operandColumn line.operand := by
  obtain ⟨hfields, -, -, htext⟩ := parse_eq_ok.mp h
  rw [← Text.fields_chomp, ← htext] at hfields
  have hoperand : Text.fields line.operand = [line.operand] :=
    Text.fields_of_mem_fields (by rw [hfields]; simp)
  obtain ⟨hne, hrun⟩ := Text.not_blank_of_fields hoperand
  have hruns : Text.runs line.text.toList =
      [line.label.toList, line.mnemonic.toList] ++ [line.operand.toList] := by
    have hmap := congrArg (List.map String.toList) hfields
    simpa [Text.fields, Function.comp_def] using hmap
  obtain ⟨before, blanks, hline, hbefore, hend, hblanks⟩ := Text.exists_last_run hruns
  have hcolumn : line.operandColumn = before.length + 1 := by
    have hnonempty : line.text ≠ "" := by
      intro hempty
      rw [hempty] at hfields
      cases hfields
    rw [operandColumn, if_neg hnonempty, hline, Text.lastIndex?_field hne hrun hblanks]
  have hparts : line.text = String.ofList before ++ line.operand ++ String.ofList blanks := by
    apply String.toList_injective
    simp [hline]
  have hlength : (line.operandColumn : Int) = (String.ofList before).length + 1 := by
    rw [hcolumn, String.length_ofList]
    rfl
  rw [hparts, hlength]
  refine .intro ?_ ?_ hoperand ?_
  · rw [Text.fields, String.toList_ofList, hbefore]
    rfl
  · rwa [String.toList_ofList]
  · rwa [String.toList_ofList]

/-- What can be reported at a statement: a fault of its operand, or that its label has an address
already. -/
inductive Blamed (line : SourceLine) : Diagnostic → Prop where
  | operand {p : Problem} (hread : p.family ≠ .sourceLine) (hlabel : p.family ≠ .duplicateSymbol) :
      Blamed line (line.operandFault p)
  | label (address : Int) : Blamed line (SymbolTable.duplicate line.label address (some line))

theorem Blamed.of_directiveFault (h : line.DirectiveFault d) : Blamed line d := by
  rw [h.eq_operandFault]
  apply Blamed.operand
  · rw [h.family_eq]
    decide
  · rw [h.family_eq]
    decide

theorem Blamed.of_unencodable {symbols : SymbolTable} {undefinedSymbols : UndefinedSymbols}
    {p : Problem} (h : line.Unencodable table symbols undefinedSymbols p) :
    Blamed line (line.operandFault p) :=
  .operand (h.family_ne (by decide)) (h.family_ne (by decide))

/-- Where a diagnostic comes from: a line that is no statement, a statement that is blamed, or no
line at all. -/
inductive Origin (statements : List (Except Diagnostic SourceLine)) : Diagnostic → Prop where
  | unread {d : Diagnostic} (h : .error d ∈ statements) : Origin statements d
  | blamed {d : Diagnostic} {line : SourceLine} (h : .ok line ∈ statements) (hd : line.Blamed d) :
      Origin statements d
  | placeless {d : Diagnostic} (h : d.location = none) : Origin statements d

theorem Origin.cons {statements : List (Except Diagnostic SourceLine)} (h : Origin statements d)
    (statement : Except Diagnostic SourceLine) : Origin (statement :: statements) d := by
  cases h with
  | unread h => exact .unread (List.mem_cons_of_mem _ h)
  | blamed h hd => exact .blamed (List.mem_cons_of_mem _ h) hd
  | placeless h => exact .placeless h

/-- A diagnostic that has its place on a line and quotes the line. It is about the whole line, or
about the third field if the line is a statement and its label is in order. -/
structure Quotes (filename : String) (n : Nat) (text : String) (d : Diagnostic) (place : Location) :
    Prop where
  filename_eq : place.filename = filename
  line_eq : place.line = n
  sourceLine_eq : d.sourceLine = some (Text.chomp text)
  column : if d.problem.family = .sourceLine ∨ d.problem.family = .duplicateSymbol then
      place.column = 0
    else ∃ operand, Text.ThirdFieldAt (Text.chomp text) place.column operand

theorem quotes_of_parse_eq_error {n : Nat} {place : Location}
    (h : parse text n filename = .error d) (hplace : d.location = some place) :
    Quotes filename n text d place := by
  unfold parse at h
  dsimp only at h
  split at h
  · cases h
  · cases h
    cases hplace
    exact ⟨rfl, rfl, rfl, rfl⟩

theorem Blamed.quotes {n : Nat} {place : Location} (hd : line.Blamed d)
    (h : parse text n filename = .ok line) (hplace : d.location = some place) :
    Quotes filename n text d place := by
  obtain ⟨-, hn, hfilename, htext⟩ := parse_eq_ok.mp h
  cases hd with
  | @operand p hread hlabel =>
    cases hplace
    refine ⟨hfilename, hn, congrArg some htext, ?_⟩
    have hneither : ¬((line.operandFault p).problem.family = .sourceLine ∨
        (line.operandFault p).problem.family = .duplicateSymbol) := not_or.mpr ⟨hread, hlabel⟩
    rw [if_neg hneither, ← htext]
    exact ⟨line.operand, thirdFieldAt_operandColumn h⟩
  | label address =>
    cases hplace
    exact ⟨hfilename, hn, congrArg some htext, rfl⟩

theorem Origin.exists_quotes {place : Location} (h : Origin (statements filename lines) d)
    (hplace : d.location = some place) :
    ∃ n text, 1 ≤ n ∧ lines[n - 1]? = some text ∧ Quotes filename n text d place := by
  cases h with
  | unread h =>
    obtain ⟨n, text, hn, hget, -, hparse⟩ := mem_statements_iff.mp h
    exact ⟨n, text, hn, hget, quotes_of_parse_eq_error hparse hplace⟩
  | blamed h hd =>
    obtain ⟨n, text, hn, hget, -, hparse⟩ := mem_statements_iff.mp h
    exact ⟨n, text, hn, hget, hd.quotes hparse hplace⟩
  | placeless h =>
    rw [h] at hplace
    cases hplace

theorem Quotes.column_nonneg {n : Nat} {place : Location} (h : Quotes filename n text d place) :
    0 ≤ place.column := by
  have hcolumn := h.column
  split at hcolumn
  · omega
  · obtain ⟨operand, hfield⟩ := hcolumn
    have hpos := hfield.one_le
    omega

end SourceLine

namespace Layout

open SourceLine (Origin)

variable {table : OpcodeTable} {duplicates : DuplicateLabels} {laying policy : Policy}
  {filename : String} {lines : List String} {d : Diagnostic} {line : SourceLine}

theorem passOver_eq_error {counter : LocationCounter}
    (h : (passOver table counter line).result = .error d) :
    line.Blamed d ∨ d.location = none := by
  simp only [passOver, Logged.result_bind_eq_error, Logged.result_ofExcept, Logged.result_noteIf,
    reduceCtorEq, false_or] at h
  rcases h with hsize | ⟨n, -, _, -, hadvance⟩
  · exact .inl (.of_directiveFault (SourceLine.directiveFault_of_size hsize))
  · unfold LocationCounter.advance at hadvance
    dsimp only at hadvance
    split at hadvance
    · cases hadvance
      exact .inr rfl
    · cases hadvance

theorem scan_eq_error {statements : List (Except Diagnostic SourceLine)} :
    ∀ {counter : LocationCounter} {symbols : SymbolTable},
      (scan table duplicates filename counter symbols statements).result = .error d →
      Origin statements d := by
  induction statements with
  | nil =>
    intro counter symbols h
    cases h
  | cons statement rest ih =>
    intro counter symbols h
    cases statement with
    | error e =>
      cases h
      exact .unread List.mem_cons_self
    | ok line =>
      rw [scan] at h
      split at h
      · cases h
      · simp only [Logged.result_bind_eq_error, Logged.result_pure, reduceCtorEq, and_false,
          exists_false, or_false] at h
        rcases h with hlabel | ⟨entered, -, hpass | ⟨after, -, hrest⟩⟩
        · obtain ⟨-, -, before, -, rfl⟩ := enterLabel_eq_error hlabel
          exact .blamed List.mem_cons_self (.label before)
        · rcases passOver_eq_error hpass with hblamed | hnone
          · exact .blamed List.mem_cons_self hblamed
          · exact .placeless hnone
        · exact (ih hrest).cons (.ok line)

theorem body_eq_error {name : String} {startEntry : Option Entry} {start : Int}
    {statements : List (Except Diagnostic SourceLine)}
    (h : (body table duplicates filename name startEntry start statements).result = .error d) :
    Origin statements d := by
  simp only [body, Logged.result_bind_eq_error, Logged.result_note, Logged.result_pure,
    reduceCtorEq, and_false, exists_false, or_false] at h
  exact scan_eq_error h

theorem ofStatements_eq_error {statements : List (Except Diagnostic SourceLine)}
    (h : (ofStatements table duplicates filename statements).result = .error d) :
    Origin statements d := by
  cases statements with
  | nil =>
    cases h
    exact .placeless rfl
  | cons statement rest =>
    cases statement with
    | error e =>
      cases h
      exact .unread List.mem_cons_self
    | ok first =>
      rw [ofStatements] at h
      split at h
      · simp only [Logged.result_bind_eq_error, Logged.result_ofExcept, Logged.result_note,
          reduceCtorEq, false_or] at h
        rcases h with hstart | ⟨start, -, _, -, hbody⟩
        · exact .blamed List.mem_cons_self
            (.of_directiveFault (SourceLine.directiveFault_of_startAddress hstart))
        · exact (body_eq_error hbody).cons (.ok first)
      · simp only [Logged.result_bind_eq_error, Logged.result_note, reduceCtorEq, false_or] at h
        obtain ⟨_, -, hbody⟩ := h
        exact body_eq_error hbody

/-- What is reported while object code is made is about the operand of a statement. -/
theorem ofLayout_origin {l : Layout} (hl : (ofLines table laying filename lines).result = .ok l)
    (h : (ObjectProgram.ofLayout table policy l).result = .error (.diagnostic d)) :
    Origin (SourceLine.statements filename lines) d := by
  rcases ObjectProgram.ofLayout_eq_error h with ⟨r, hr⟩ | ⟨e, he, _, hemission, ⟨⟩⟩
  · cases hr
  · obtain ⟨n, hn, -, -⟩ := (ofLines_laid hl).inside_of_mem_coded he
    obtain ⟨p, hp, rfl⟩ := SourceLine.exists_unencodable hn hemission
    exact .blamed (mem_statements_of_mem_entries hl ((List.takeWhile_sublist _).mem he))
      (.of_unencodable hp)

end Layout

open Layout

/-- A diagnostic with a place, of a program that cannot be laid out or has no object code, names a
line of the program and quotes it without its line end. One for a line that is no statement or for a
label has no column. Any other has the column at which the third field of the line starts, and its
text has a mark below that column. -/
theorem located_diagnostics_point_at_their_lines {table : OpcodeTable} {laying policy : Policy}
    {filename : String} {lines : List String} {d : Diagnostic} {place : Location}
    (h : (ofLines table laying filename lines).result = .error d ∨
      ∃ l, (ofLines table laying filename lines).result = .ok l ∧
        (ObjectProgram.ofLayout table policy l).result = .error (.diagnostic d))
    (hplace : d.location = some place) :
    place.filename = filename ∧ 1 ≤ place.line ∧ place.line ≤ lines.length ∧
      ∃ text, lines[(place.line - 1).toNat]? = some text ∧
        d.sourceLine = some (Text.chomp text) ∧
        (if d.problem.family = .sourceLine ∨ d.problem.family = .duplicateSymbol then
            place.column = 0
          else ∃ operand, Text.ThirdFieldAt (Text.chomp text) place.column operand) ∧
        d.text = String.intercalate "\n" (d.heading :: ("    " ++ Text.chomp text) ::
          ((if place.column = 0 then []
            else [String.ofList (List.replicate (4 + place.column - 1).toNat ' ' ++ ['^'])]) ++
              d.advisory)) := by
  have horigin : SourceLine.Origin (SourceLine.statements filename lines) d := by
    rcases h with hlayout | ⟨l, hl, hrecords⟩
    · exact ofStatements_eq_error hlayout
    · exact ofLayout_origin hl hrecords
  obtain ⟨n, text, hn, hget, hquotes⟩ := horigin.exists_quotes hplace
  obtain ⟨hlt, -⟩ := List.getElem?_eq_some_iff.mp hget
  have hline := hquotes.line_eq
  have hindex : (place.line - 1).toNat = n - 1 := by omega
  refine ⟨hquotes.filename_eq, by omega, by omega, text, ?_, hquotes.sourceLine_eq, hquotes.column,
    Diagnostic.text_of_location hplace hquotes.sourceLine_eq hquotes.column_nonneg⟩
  rw [hindex, hget]

/-- An operand that no label defines, and that stands twice in the label before it. -/
def repeatedOperandProgram : List String :=
  ["P START 0", ". LA", "LALA LDA\tLA  \r\n", "- END P"]

def repeatedOperandFault : Diagnostic :=
  ⟨.undefinedSymbol "LA" ["LALA"], some ⟨"<input>", 3, 10⟩, some "LALA LDA\tLA  ", none⟩

theorem mark_below_repeated_operand :
    (∃ l, (ofLines .standard {} "<input>" repeatedOperandProgram).result = .ok l ∧
      (ObjectProgram.ofLayout .standard ⟨.strict, .overwrite⟩ l).result =
        .error (.diagnostic repeatedOperandFault)) ∧
    (∃ text, repeatedOperandProgram[2]? = some text ∧
      repeatedOperandFault.sourceLine = some (Text.chomp text) ∧
      ∃ operand, Text.ThirdFieldAt (Text.chomp text) 10 operand) ∧
    repeatedOperandFault.text = "<input>:3:10: error: undefined symbol 'LA'\n" ++
      "    LALA LDA\tLA  \n" ++ "             ^\n" ++ "hint: did you mean 'LALA'?" := by
  have hrun : ∃ l, (ofLines .standard {} "<input>" repeatedOperandProgram).result = .ok l ∧
      decide ((ObjectProgram.ofLayout .standard ⟨.strict, .overwrite⟩ l).result =
        .error (.diagnostic repeatedOperandFault)) = true :=
    Logged.exists_of_any (by decide +kernel)
  obtain ⟨l, hl, hfails⟩ := hrun
  have hfault := of_decide_eq_true hfails
  obtain ⟨-, -, -, text, hget, hsource, hcolumn, htext⟩ :=
    located_diagnostics_point_at_their_lines (.inr ⟨l, hl, hfault⟩) rfl
  rw [if_neg (by decide)] at hcolumn
  refine ⟨⟨l, hl, hfault⟩, ⟨text, hget, hsource, hcolumn⟩, ?_⟩
  cases hget
  rw [htext]
  decide +kernel

end SicAssembler
