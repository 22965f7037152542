import SicAssembler.SourceLine
import Mathlib.Data.List.TakeWhile

/-!
# Fields of lines

The fields of a line are not empty and hold no blanks, so a field is the only field of itself, and
fields that are written with blanks between them are found again. Whether a line is a comment shows
in its fields, and line ends do not change them.
-/

namespace SicAssembler

namespace Text

theorem mem_runs {cs run : List Char} :
    run ∈ runs cs → run ≠ [] ∧ ∀ c ∈ run, isBlank c = false := by
  induction cs generalizing run with
  | nil =>
    intro h
    cases h
  | cons c cs ih =>
    rw [runs]
    split
    · exact ih
    · rename_i hc
      have hsingle : [c] ≠ [] ∧ ∀ d ∈ [c], isBlank d = false := by simpa using hc
      split
      · cases hruns : runs cs with
        | nil =>
          intro h
          obtain rfl := List.mem_singleton.mp h
          exact hsingle
        | cons first others =>
          rw [hruns] at ih
          intro h
          rcases List.mem_cons.mp h with rfl | h
          · have hfirst := (ih List.mem_cons_self).2
            exact ⟨List.cons_ne_nil c first, List.forall_mem_cons.mpr ⟨by simpa using hc, hfirst⟩⟩
          · exact ih (List.mem_cons_of_mem first h)
      · intro h
        rcases List.mem_cons.mp h with rfl | h
        · exact hsingle
        · exact ih h

/-- A run goes up to where no field starts. -/
theorem runs_append {run rest : List Char} (hne : run ≠ []) (hrun : ∀ c ∈ run, isBlank c = false)
    (hrest : startsField rest = false) : runs (run ++ rest) = run :: runs rest := by
  induction run with
  | nil => exact absurd rfl hne
  | cons c run ih =>
    rw [List.forall_mem_cons] at hrun
    rw [List.cons_append, runs, if_neg (by simp [hrun.1])]
    cases run with
    | nil => simp [hrest]
    | cons d run =>
      have hd := (List.forall_mem_cons.mp hrun.2).1
      rw [ih (List.cons_ne_nil d run) hrun.2]
      simp [startsField, hd, attach]

theorem runs_eq_singleton {run : List Char} (hne : run ≠ [])
    (hrun : ∀ c ∈ run, isBlank c = false) : runs run = [run] := by
  have hruns : runs (run ++ []) = [run] := runs_append hne hrun rfl
  rwa [List.append_nil] at hruns

theorem fields_of_mem_fields {s t : String} (h : s ∈ fields t) : fields s = [s] := by
  obtain ⟨run, hrun, rfl⟩ := List.mem_map.mp h
  obtain ⟨hne, hblank⟩ := mem_runs hrun
  rw [fields, String.toList_ofList, runs_eq_singleton hne hblank]
  rfl

/-- A field is not empty and holds no blanks. -/
theorem not_blank_of_fields {s : String} (h : fields s = [s]) :
    s.toList ≠ [] ∧ ∀ c ∈ s.toList, isBlank c = false := by
  have hmem : s ∈ fields s := by
    rw [h]
    exact List.mem_singleton_self s
  obtain ⟨run, hrun, rfl⟩ := List.mem_map.mp hmem
  rw [String.toList_ofList]
  exact mem_runs hrun

theorem fields_append_blank {s : String} (h : fields s = [s]) {c : Char} (hc : isBlank c = true)
    (rest : List Char) :
    fields (String.ofList (s.toList ++ c :: rest)) = s :: fields (String.ofList rest) := by
  obtain ⟨hne, hblank⟩ := not_blank_of_fields h
  have hrest : startsField (c :: rest) = false := by simp [startsField, hc]
  have hruns : runs (s.toList ++ c :: rest) = s.toList :: runs rest := by
    rw [runs_append hne hblank hrest, runs, if_pos hc]
  rw [fields, String.toList_ofList, hruns, List.map_cons, String.ofList_toList, fields,
    String.toList_ofList]

theorem fields_between_dashes {s : String} (h : fields s = [s]) :
    fields ("- " ++ s ++ " -") = ["-", s, "-"] := by
  have hdash : fields "-" = ["-"] := rfl
  have hlist : "- " ++ s ++ " -" =
      String.ofList ("-".toList ++ ' ' :: (s.toList ++ ' ' :: "-".toList)) := by
    apply String.toList_injective
    simp
  rw [hlist, fields_append_blank hdash rfl, fields_append_blank h rfl, String.ofList_toList, hdash]

theorem runs_of_blanks {blanks : List Char} (h : ∀ c ∈ blanks, isBlank c = true) :
    runs blanks = [] := by
  induction blanks with
  | nil => rfl
  | cons c blanks ih =>
    rw [List.forall_mem_cons] at h
    rw [runs, if_pos h.1]
    exact ih h.2

theorem runs_append_blanks {blanks : List Char} (h : ∀ c ∈ blanks, isBlank c = true)
    (cs : List Char) : runs (cs ++ blanks) = runs cs := by
  have hstart : ∀ cs, startsField (cs ++ blanks) = startsField cs := by
    intro cs
    cases cs with
    | cons c cs => rfl
    | nil =>
      cases blanks with
      | nil => rfl
      | cons c blanks => simp [startsField, h]
  induction cs with
  | nil => exact runs_of_blanks h
  | cons c cs ih => simp only [List.cons_append, runs, ih, hstart]

theorem dropEndWhile_append (p : Char → Bool) (cs : List Char) :
    dropEndWhile p cs ++ (cs.reverse.takeWhile p).reverse = cs := by
  rw [dropEndWhile, ← List.reverse_append, List.takeWhile_append_dropWhile, List.reverse_reverse]

theorem fields_chomp (s : String) : fields (chomp s) = fields s := by
  have hblank : ∀ c ∈ (s.toList.reverse.takeWhile fun c => c = '\r' || c = '\n').reverse,
      isBlank c = true := by
    intro c hc
    have hend := List.mem_takeWhile_imp (List.mem_reverse.mp hc)
    rcases Bool.or_eq_true_iff.mp hend with h | h
    · rw [of_decide_eq_true h]
      rfl
    · rw [of_decide_eq_true h]
      rfl
  rw [fields, chomp, String.toList_ofList, ← runs_append_blanks hblank, dropEndWhile_append, fields]

/-- The first field starts with the first character that is not blank. -/
theorem head?_runs (cs : List Char) :
    (runs cs).head?.bind List.head? = (cs.dropWhile isBlank).head? := by
  induction cs with
  | nil => rfl
  | cons c cs ih =>
    rw [runs, List.dropWhile_cons]
    split
    · exact ih
    · split
      · cases runs cs <;> rfl
      · rfl

end Text

namespace SourceLine

/-- Whether a line is a comment shows in its first field. -/
theorem isComment_eq (text : String) :
    isComment text = ((Text.fields text).head?.bind (·.toList.head?)).all (· == '.') := by
  have hhead : (Text.fields text).head?.bind (·.toList.head?) =
      (text.toList.dropWhile Text.isBlank).head? := by
    rw [← Text.head?_runs, Text.fields, List.head?_map, Option.bind_map]
    simp only [Function.comp_def, String.toList_ofList]
  rw [hhead, isComment]
  cases text.toList.dropWhile Text.isBlank <;> rfl

theorem isComment_congr {s t : String} (h : (Text.fields s).head? = (Text.fields t).head?) :
    isComment s = isComment t := by
  rw [isComment_eq, isComment_eq, h]

/-- A line is a statement exactly if it has three fields. -/
theorem parse_eq_ok {text filename : String} {n : Int} {line : SourceLine} :
    parse text n filename = .ok line ↔
      Text.fields text = [line.label, line.mnemonic, line.operand] ∧
        line.lineNumber = n ∧ line.filename = filename ∧ line.text = Text.chomp text := by
  rw [← Text.fields_chomp]
  unfold parse
  dsimp only
  split
  · rename_i label mnemonic operand hfields
    rw [hfields]
    constructor
    · rintro ⟨⟩
      exact ⟨rfl, rfl, rfl, rfl⟩
    · obtain ⟨_, _, _, _, _, _⟩ := line
      rintro ⟨⟨⟩, rfl, rfl, rfl⟩
      rfl
  · rename_i hfields
    constructor
    · rintro ⟨⟩
    · rintro ⟨h, -⟩
      exact absurd h (hfields _ _ _)

theorem fields_mnemonic {text filename : String} {n : Int} {line : SourceLine}
    (h : parse text n filename = .ok line) : Text.fields line.mnemonic = [line.mnemonic] := by
  apply Text.fields_of_mem_fields (t := text)
  rw [(parse_eq_ok.mp h).1]
  simp

end SourceLine

end SicAssembler
