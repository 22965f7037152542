import SicAssembler.Proofs.Saving

/-!
# Where paths lead

An object program goes to the path of its source with the suffix replaced, if no path is given for
it. Without links, that path leads to the source itself exactly if the name of the source has the
suffix of object programs already. With links, it may lead anywhere.
-/

namespace SicAssembler

namespace Path

theorem stem?_append {stem extension : List Char} (hstem : stem ≠ []) (hne : extension ≠ [])
    (hdot : '.' ∉ extension) : stem? (stem ++ '.' :: extension) = some stem := by
  have hafter : (stem ++ '.' :: extension).reverse.takeWhile (· != '.') = extension.reverse := by
    have hpass : ∀ c ∈ extension.reverse, (c != '.') = true := by
      intro c hc
      rw [bne_iff_ne]
      rintro rfl
      exact hdot (List.mem_reverse.mp hc)
    rw [List.reverse_append, List.reverse_cons, List.append_assoc,
      List.takeWhile_append_of_pos hpass, List.singleton_append,
      List.takeWhile_cons_of_neg (by decide), List.append_nil]
  have hbefore : (stem ++ '.' :: extension).take
      ((stem ++ '.' :: extension).length - extension.reverse.length - 1) = stem := by
    have hlength : (stem ++ '.' :: extension).length - extension.reverse.length - 1 =
        stem.length := by
      simp only [List.length_append, List.length_cons, List.length_reverse]
      omega
    rw [hlength, List.take_left]
  unfold stem?
  dsimp only
  rw [hafter, hbefore, if_pos]
  refine ⟨?_, by simpa using hne, hstem⟩
  simp only [List.length_append, List.length_cons, List.length_reverse]
  omega

theorem stem?_eq_some {cs stem : List Char} (h : stem? cs = some stem) :
    stem ≠ [] ∧ ∀ c ∈ stem, c ∈ cs := by
  unfold stem? at h
  dsimp only at h
  split at h
  · rename_i hstem
    obtain rfl := Option.some.inj h
    exact ⟨hstem.2.2, fun c => List.mem_of_mem_take⟩
  · cases h

/-- A name with its suffix replaced is some of its own characters and the suffix. -/
theorem exists_renamed_eq (suffix name : String) :
    ∃ stem, renamed suffix name = stem ++ suffix ∧ ∀ c ∈ stem.toList, c ∈ name.toList := by
  unfold renamed
  split
  · rename_i stem hstem
    refine ⟨String.ofList stem, rfl, ?_⟩
    rw [String.toList_ofList]
    exact (stem?_eq_some hstem).2
  · exact ⟨name, rfl, fun _ hc => hc⟩

/-- The suffix of a name is replaced by itself exactly if the name has it, after something else. -/
theorem renamed_eq_self_iff (name : String) :
    renamed ".obj" name = name ↔ ∃ stem, stem ≠ "" ∧ name = stem ++ ".obj" := by
  constructor
  · intro h
    unfold renamed at h
    split at h
    · rename_i stem hstem
      refine ⟨String.ofList stem, ?_, h.symm⟩
      rw [Ne, ← String.toList_eq_nil_iff, String.toList_ofList]
      exact (stem?_eq_some hstem).1
    · simp at h
  · rintro ⟨stem, hne, rfl⟩
    have hstem : stem? (stem ++ ".obj").toList = some stem.toList := by
      rw [String.toList_append]
      apply stem?_append
      · simpa using hne
      · decide
      · decide
    rw [renamed, hstem]
    simp

theorem renamed_ne (name : String) {other : String} (h : other.length < 4) :
    renamed ".obj" name ≠ other := by
  rintro rfl
  obtain ⟨stem, hrenamed, -⟩ := exists_renamed_eq ".obj" name
  rw [hrenamed, String.length_append] at h
  exact absurd h (Nat.not_lt.mpr (Nat.le_add_left 4 stem.length))

theorem leads_renamed (name : String) : leads (renamed ".obj" name) = true := by
  rw [leads, Bool.and_eq_true, bne_iff_ne, bne_iff_ne]
  exact ⟨renamed_ne name (by decide), renamed_ne name (by decide)⟩

theorem isName_renamed {name : String} (h : IsName name) : IsName (renamed ".obj" name) := by
  refine ⟨renamed_ne name (by decide), ?_⟩
  obtain ⟨stem, hrenamed, hstem⟩ := exists_renamed_eq ".obj" name
  rw [hrenamed, String.toList_append, List.mem_append]
  rintro (hmem | hmem)
  · exact h.2 (hstem '/' hmem)
  · exact absurd hmem (by decide)

theorem withSuffix_eq_fromRoot {path name : String} {above : List String}
    (h : names path = above ++ [name]) (suffix : String) :
    withSuffix suffix path = fromRoot path (above ++ [renamed suffix name]) := by
  unfold withSuffix
  dsimp only
  rw [h, List.dropLast_concat, List.getLast?_concat]
  rfl

/-- With its suffix replaced, a path has the same root and the same names but for the last one. -/
theorem names_withSuffix {path name : String} {above : List String}
    (h : names path = above ++ [name]) :
    names (withSuffix ".obj" path) = above ++ [renamed ".obj" name] ∧
      (root (withSuffix ".obj" path) = "" ↔ root path = "") := by
  have hmem : ∀ other ∈ above ++ [name], IsName other ∧ leads other = true := by
    intro other hother
    rw [← h] at hother
    exact ⟨isName_of_mem_names hother, (List.mem_filter.mp hother).2⟩
  have hbelow : ∀ other ∈ above ++ [renamed ".obj" name], IsName other ∧ leads other = true := by
    rw [List.forall_mem_append, List.forall_mem_singleton] at hmem ⊢
    exact ⟨hmem.1, isName_renamed hmem.2.1, leads_renamed name⟩
  have hnames : ∀ other ∈ above ++ [renamed ".obj" name], IsName other :=
    fun other hother => (hbelow other hother).1
  obtain ⟨n, hcomponents⟩ := components_fromRoot path (by simp) hnames
  rw [withSuffix_eq_fromRoot h]
  refine ⟨?_, root_fromRoot_eq_empty_iff (by simp) hnames⟩
  have hempty : leads "" = false := rfl
  rw [names_eq, hcomponents, List.filter_append, List.filter_replicate_of_neg (by simp [hempty]),
    List.nil_append, List.filter_eq_self]
  exact fun other hother => (hbelow other hother).2

end Path

namespace Disk

variable {d : Disk} {p q r s : Place} {path : String} {bytes : List UInt8}

theorem next_of_leads {name : String} (hlinks : d.links = []) (h : Path.leads name = true)
    (hup : name ≠ "..") (p : Place) : d.next p name = ⟨p.names ++ [name]⟩ := by
  have hstay : ¬(name = "" ∨ name = ".") := by simpa [Path.leads] using h
  have hchild : p.child name = ⟨p.names ++ [name]⟩ := by
    rw [Place.child, if_neg hstay, if_neg hup]
  unfold next
  dsimp only
  rw [hlinks, hchild]
  exact ite_self _

theorem LeadsTo.exists_file {lines : List String} (h : d.LeadsTo path p)
    (hlines : d.lines path = .ok lines) :
    ∃ bytes, d.node? p = some (.file bytes) ∧ d.read (Path.plain path) = .ok bytes := by
  have hread : ∃ bytes, d.read (Path.plain path) = .ok bytes := by
    cases hread : d.read (Path.plain path) with
    | ok bytes => exact ⟨bytes, rfl⟩
    | error e =>
      unfold Disk.lines at hlines
      simp [hread] at hlines
  obtain ⟨bytes, hread⟩ := hread
  refine ⟨bytes, ?_, hread⟩
  obtain ⟨q, hq, hnode, -⟩ := read_eq_ok.mp hread
  -- The lines are read from the plain form, which leads to a directory if there are no names.
  by_cases hne : Path.names path = []
  · exact absurd (Path.names_plain_eq_nil hne) (hq.names_ne_nil (by simp [hnode]))
  · rwa [(h.plain hne).eq hq]

theorem walk_append_eq_ok {components more : List String} :
    d.walk p (components ++ more) = .ok r ↔
      ∃ q, d.walk p components = .ok q ∧ d.walk q more = .ok r := by
  induction components generalizing p with
  | nil => simp [walk]
  | cons name rest ih =>
    simp only [List.cons_append, walk_cons_eq_ok, ih]
    grind

theorem walk_concat_eq_ok {components : List String} {name : String} :
    d.walk p (components ++ [name]) = .ok r ↔
      ∃ q, d.walk p components = .ok q ∧ d.node? q = some .directory ∧
        name.utf8ByteSize ≤ nameLimit ∧ d.next q name = r := by
  simp only [walk_append_eq_ok, walk_cons_eq_ok]
  simp only [walk, Except.ok.injEq]

/-- Without links and steps up at its end, a path leads where it did with its suffix replaced
exactly if the name there has the suffix already. -/
theorem LeadsTo.withSuffix_iff (hlinks : d.links = []) (h : d.LeadsTo path s)
    (hs : d.node? s ≠ some .directory) (hup : (Path.names path).getLast? ≠ some "..") :
    d.LeadsTo (Path.withSuffix ".obj" path) s ↔
      ∃ stem, stem ≠ "" ∧ s.names.getLast? = some (stem ++ ".obj") := by
  have hne := h.names_ne_nil hs
  have hwalk := h.walk_names
  have hnames := (List.dropLast_concat_getLast hne).symm
  generalize (Path.names path).dropLast = above at hnames
  generalize (Path.names path).getLast hne = name at hnames
  have hleads : Path.leads name = true := by
    have hmem : name ∈ Path.names path := by
      rw [hnames]
      exact List.mem_concat_self
    exact (List.mem_filter.mp hmem).2
  have hdown : name ≠ ".." := by
    rintro rfl
    rw [hnames, List.getLast?_concat] at hup
    exact hup rfl
  rw [hnames] at hwalk
  obtain ⟨q, hq, -, -, rfl⟩ := walk_concat_eq_ok.mp hwalk
  rw [next_of_leads hlinks hleads hdown] at h ⊢
  simp only [List.getLast?_concat, Option.some.injEq]
  constructor
  · intro hderived
    obtain ⟨hnames', hroot⟩ := Path.names_withSuffix hnames
    have horigin : d.origin (Path.withSuffix ".obj" path) = d.origin path := by
      unfold origin
      simp only [hroot]
    have hwalk' := hderived.walk_names
    rw [hnames', horigin] at hwalk'
    obtain ⟨q', hq', -, -, hnext⟩ := walk_concat_eq_ok.mp hwalk'
    obtain rfl := Except.ok.inj (hq.symm.trans hq')
    rw [next_of_leads hlinks (Path.leads_renamed name) (Path.renamed_ne name (by decide))] at hnext
    have hrenamed : Path.renamed ".obj" name = name := by simpa using hnext
    exact (Path.renamed_eq_self_iff name).mp hrenamed
  · rintro ⟨stem, hstem, rfl⟩
    have hsame : Path.withSuffix ".obj" path = Path.plain path := by
      rw [Path.withSuffix_eq_fromRoot hnames,
        (Path.renamed_eq_self_iff _).mpr ⟨stem, hstem, rfl⟩, ← hnames, Path.plain_eq_fromRoot hne]
    rw [hsame]
    exact h.plain hne

end Disk

end SicAssembler
