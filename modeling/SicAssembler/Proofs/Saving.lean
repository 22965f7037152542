import SicAssembler.Proofs.TextFiles
import Mathlib.Data.String.Basic

/-!
# Saved texts

What is written to a path is found when the path is read in its plain form. A write changes nothing
on the way to the file, since the way leads through directories only, and the plain form of a path
leads to the same place as the path.
-/

namespace SicAssembler

namespace Text

theorem cutAt_eq_splitOn (mark : Char) (cs : List Char) : cutAt mark cs = cs.splitOn mark := by
  induction cs with
  | nil => rfl
  | cons c cs ih =>
    rw [cutAt, List.splitOn_cons_eq_if_modifyHead, ih]
    by_cases hc : c = mark
    · rw [if_pos hc, if_pos (beq_iff_eq.mpr hc)]
    · rw [if_neg hc, if_neg (fun h => hc (beq_iff_eq.mp h))]
      cases hsplit : cs.splitOn mark with
      | nil => exact absurd hsplit (List.splitOn_ne_nil mark cs)
      | cons run others => rfl

theorem cutAt_ne_nil (mark : Char) (cs : List Char) : cutAt mark cs ≠ [] := by
  rw [cutAt_eq_splitOn]
  exact List.splitOn_ne_nil mark cs

theorem not_mem_of_mem_cutAt {mark : Char} {cs run : List Char} (h : run ∈ cutAt mark cs) :
    mark ∉ run := by
  induction cs generalizing run with
  | nil =>
    obtain rfl := List.mem_singleton.mp h
    exact List.not_mem_nil
  | cons c cs ih =>
    rw [cutAt] at h
    split at h
    · rcases List.mem_cons.mp h with rfl | h
      · exact List.not_mem_nil
      · exact ih h
    · rename_i hc
      cases hcut : cutAt mark cs with
      | nil => exact absurd hcut (cutAt_ne_nil mark cs)
      | cons first others =>
        rw [hcut] at ih h
        rcases List.mem_cons.mp h with rfl | h
        · rw [List.mem_cons, not_or]
          exact ⟨Ne.symm hc, ih List.mem_cons_self⟩
        · exact ih (List.mem_cons_of_mem first h)

theorem cutAt_intercalate {mark : Char} {runs : List (List Char)} (h : ∀ run ∈ runs, mark ∉ run)
    (hne : runs ≠ []) : cutAt mark ([mark].intercalate runs) = runs := by
  rw [cutAt_eq_splitOn, List.splitOn_intercalate mark h hne]

theorem intercalate_cutAt (mark : Char) (cs : List Char) :
    [mark].intercalate (cutAt mark cs) = cs := by
  rw [cutAt_eq_splitOn, List.intercalate_splitOn]

theorem cutAt_replicate_append (mark : Char) (n : Nat) (cs : List Char) :
    cutAt mark (List.replicate n mark ++ cs) = List.replicate n [] ++ cutAt mark cs := by
  induction n with
  | zero => rfl
  | succ n ih => rw [List.replicate_succ, List.cons_append, cutAt, if_pos rfl, ih]; rfl

theorem intercalate_sublist {sep : List Char} {runs more : List (List Char)}
    (h : runs.Sublist more) : (sep.intercalate runs).Sublist (sep.intercalate more) := by
  induction h with
  | slnil => exact List.Sublist.refl _
  | @cons runs more run _ ih =>
    cases more with
    | nil => exact ih.trans (List.nil_sublist _)
    | cons next more =>
      rw [List.intercalate_cons_cons]
      exact ih.trans (List.sublist_append_right _ _)
  | @cons_cons runs more run hsub ih =>
    cases runs with
    | nil =>
      rw [List.intercalate_singleton]
      cases more with
      | nil => rw [List.intercalate_singleton]
      | cons next more =>
        rw [List.intercalate_cons_cons, List.append_assoc]
        exact List.sublist_append_left _ _
    | cons first runs =>
      have hmore : more ≠ [] := by
        rintro rfl
        cases hsub
      rw [List.intercalate_cons_cons, List.intercalate_cons_of_ne_nil hmore]
      exact ih.append_left _

end Text

namespace Path

/-- Whether a component leads on: it is neither empty nor a single dot. -/
def leads (name : String) : Bool := name != "" && name != "."

theorem names_eq (path : String) : names path = (components path).filter leads := rfl

/-- Whether a text can be the name of a file: it is not empty and holds no slash. -/
def IsName (name : String) : Prop := name ≠ "" ∧ '/' ∉ name.toList

theorem isName_of_mem_names {path name : String} (h : name ∈ names path) : IsName name := by
  obtain ⟨hmem, hleads⟩ := List.mem_filter.mp h
  obtain ⟨run, hrun, rfl⟩ := List.mem_map.mp hmem
  rw [Bool.and_eq_true] at hleads
  refine ⟨bne_iff_ne.mp hleads.1, ?_⟩
  rw [String.toList_ofList]
  exact Text.not_mem_of_mem_cutAt hrun

/-- A path is its root, which is made of slashes, and what its names stand in. -/
theorem exists_after_root (path : String) :
    ∃ n rest, (root path).toList = List.replicate n '/' ∧
      path.toList = List.replicate n '/' ++ rest ∧
      (n = 0 → rest.head? ≠ some '/') := by
  unfold root
  split
  · rename_i rest h
    exact ⟨1, '/' :: '/' :: rest, rfl, h, by omega⟩
  · rename_i rest _ h
    exact ⟨2, rest, rfl, h, by omega⟩
  · rename_i rest _ _ h
    exact ⟨1, rest, rfl, h, by omega⟩
  · rename_i h
    refine ⟨0, path.toList, rfl, rfl, ?_⟩
    intro _ hhead
    cases hpath : path.toList with
    | nil =>
      rw [hpath] at hhead
      cases hhead
    | cons c rest =>
      rw [hpath] at hhead
      obtain rfl := Option.some.inj hhead
      exact h rest hpath

theorem root_eq_empty_iff (path : String) : root path = "" ↔ path.toList.head? ≠ some '/' := by
  obtain ⟨n, rest, hroot, hpath, hrest⟩ := exists_after_root path
  rw [← String.toList_inj, hroot, hpath]
  cases n with
  | zero => simpa using hrest rfl
  | succ n => simp [List.replicate_succ]

/-- The path from the root of another path down by names. -/
def fromRoot (path : String) (below : List String) : String :=
  root path ++ String.intercalate "/" below

section FromRoot

variable {path : String} {below : List String}

theorem toList_fromRoot (path : String) (below : List String) : (fromRoot path below).toList =
    (root path).toList ++ ['/'].intercalate (below.map String.toList) := by
  rw [fromRoot, String.toList_append, String.toList_intercalate]
  rfl

/-- Names with slashes between them start as the first name does. -/
theorem head?_intercalate_toList (hne : below ≠ []) (h : ∀ name ∈ below, IsName name) :
    ∃ c, (['/'].intercalate (below.map String.toList)).head? = some c ∧ c ≠ '/' := by
  obtain ⟨name, others, rfl⟩ := List.exists_cons_of_ne_nil hne
  obtain ⟨hempty, hslash⟩ := h name List.mem_cons_self
  cases hname : name.toList with
  | nil => exact absurd (String.toList_eq_nil_iff.mp hname) hempty
  | cons c cs =>
    rw [hname] at hslash
    refine ⟨c, ?_, fun hc => hslash (hc ▸ List.mem_cons_self)⟩
    rw [List.map_cons, hname]
    cases others with
    | nil => rfl
    | cons next others => rw [List.map_cons, List.intercalate_cons_cons]; rfl

theorem components_fromRoot (path : String) (hne : below ≠ [])
    (h : ∀ name ∈ below, IsName name) :
    ∃ n, components (fromRoot path below) = List.replicate n "" ++ below := by
  obtain ⟨n, -, hroot, -, -⟩ := exists_after_root path
  have hbelow : Text.cutAt '/' (['/'].intercalate (below.map String.toList)) =
      below.map String.toList := by
    apply Text.cutAt_intercalate
    · intro run hrun
      obtain ⟨name, hname, rfl⟩ := List.mem_map.mp hrun
      exact (h name hname).2
    · simpa using hne
  refine ⟨n, ?_⟩
  rw [components, toList_fromRoot, hroot, Text.cutAt_replicate_append, hbelow]
  simp

theorem root_fromRoot_eq_empty_iff (hne : below ≠ []) (h : ∀ name ∈ below, IsName name) :
    root (fromRoot path below) = "" ↔ root path = "" := by
  obtain ⟨n, rest, hroot, hpath, hrest⟩ := exists_after_root path
  obtain ⟨c, hc, hslash⟩ := head?_intercalate_toList hne h
  rw [root_eq_empty_iff, root_eq_empty_iff, toList_fromRoot, hroot, hpath]
  cases n with
  | zero => simpa [hc, hslash] using hrest rfl
  | succ n => simp [List.replicate_succ]

theorem fromRoot_ne_empty (hne : below ≠ []) (h : ∀ name ∈ below, IsName name) :
    fromRoot path below ≠ "" := by
  intro hempty
  obtain ⟨c, hc, -⟩ := head?_intercalate_toList hne h
  have htext := toList_fromRoot path below
  rw [hempty] at htext
  rw [(List.append_eq_nil_iff.mp htext.symm).2] at hc
  cases hc

end FromRoot

section Plain

variable {path : String}

theorem names_eq_of_toList_eq {n : Nat} {rest : List Char}
    (h : path.toList = List.replicate n '/' ++ rest) :
    names path = ((Text.cutAt '/' rest).map String.ofList).filter leads := by
  have hempty : leads (String.ofList []) = false := rfl
  rw [names_eq, components, h, Text.cutAt_replicate_append, List.map_append, List.filter_append,
    List.map_replicate, List.filter_replicate_of_neg (by simp [hempty]), List.nil_append]

/-- The plain form of a path has the root and the names of the path. -/
theorem plain_eq_fromRoot (h : names path ≠ []) : plain path = fromRoot path (names path) :=
  if_neg (fromRoot_ne_empty h fun _ => isName_of_mem_names)

theorem plain_sublist (h : names path ≠ []) : (plain path).toList.Sublist path.toList := by
  obtain ⟨n, rest, hroot, hpath, -⟩ := exists_after_root path
  have hruns : ((names path).map String.toList).Sublist
      (((Text.cutAt '/' rest).map String.ofList).map String.toList) := by
    rw [names_eq_of_toList_eq hpath]
    exact List.filter_sublist.map String.toList
  have hcut : ((Text.cutAt '/' rest).map String.ofList).map String.toList =
      Text.cutAt '/' rest := by simp
  rw [hcut] at hruns
  have hnames : (['/'].intercalate ((names path).map String.toList)).Sublist
      (['/'].intercalate (Text.cutAt '/' rest)) := Text.intercalate_sublist hruns
  rw [Text.intercalate_cutAt] at hnames
  rw [plain_eq_fromRoot h, toList_fromRoot, hroot, hpath]
  exact hnames.append_left _

theorem utf8ByteSize_plain_le (h : names path ≠ []) :
    (plain path).utf8ByteSize ≤ path.utf8ByteSize := by
  have hsize (s : String) : s.utf8ByteSize = String.utf8Len s.toList := by
    rw [← String.utf8ByteSize_ofList, String.ofList_toList]
  rw [hsize, hsize]
  exact String.utf8Len_le_of_sublist (plain_sublist h)

theorem names_plain_eq_nil (h : names path = []) : names (plain path) = [] := by
  obtain ⟨n, -, hroot, -, -⟩ := exists_after_root path
  unfold plain
  dsimp only
  rw [h, String.intercalate_nil, String.append_empty]
  split
  · rfl
  · rw [← List.append_nil (List.replicate n '/')] at hroot
    rw [names_eq_of_toList_eq hroot]
    rfl

end Plain

end Path

namespace Disk

variable {d : Disk} {p q r : Place} {n : Node} {path : String}

theorem lookup_putNode_self (nodes : List (Place × Node)) :
    (putNode p n nodes).lookup p = some n := by
  induction nodes with
  | nil => simp [putNode]
  | cons node nodes ih =>
    obtain ⟨r, m⟩ := node
    rw [putNode]
    split
    · rename_i h
      simp [h]
    · rename_i h
      simp [List.lookup_cons, beq_false_of_ne (Ne.symm h), ih]

theorem lookup_putNode_of_ne (h : q ≠ p) (nodes : List (Place × Node)) :
    (putNode p n nodes).lookup q = nodes.lookup q := by
  induction nodes with
  | nil => simp [putNode, List.lookup_cons, beq_false_of_ne h]
  | cons node nodes ih =>
    obtain ⟨r, m⟩ := node
    rw [putNode]
    split
    · rename_i hp
      simp [List.lookup_cons, hp, beq_false_of_ne h]
    · simp only [List.lookup_cons, ih]

theorem node?_put_self (h : p.names ≠ []) : (d.put p n).node? p = some n := by
  rw [node?, if_neg h]
  exact lookup_putNode_self d.nodes

theorem node?_put_of_ne (h : q ≠ p) : (d.put p n).node? q = d.node? q := by
  rw [node?, node?]
  congr 1
  exact lookup_putNode_of_ne h d.nodes

theorem next_of_not_leads {name : String} (h : ¬Path.leads name = true) (p : Place) :
    d.next p name = p := by
  have hname : name = "" ∨ name = "." := by
    simpa [Path.leads, ← or_iff_not_imp_left] using h
  have hchild : p.child name = p := if_pos hname
  unfold next
  dsimp only
  rw [hchild, if_pos (or_assoc.mp (.inl hname))]

theorem walk_cons_eq_ok {name : String} {rest : List String} :
    d.walk p (name :: rest) = .ok q ↔
      d.node? p = some .directory ∧ name.utf8ByteSize ≤ nameLimit ∧
        d.walk (d.next p name) rest = .ok q := by
  rw [walk]
  split
  · split
    · simp [*]
    · simp [Nat.not_lt.mp, *]
  · simp [*]
  · simp [*]

/-- A walk leads to the same place without the components that lead nowhere. -/
theorem walk_filter_leads {components : List String} (h : d.walk p components = .ok q) :
    d.walk p (components.filter Path.leads) = .ok q := by
  induction components generalizing p with
  | nil => exact h
  | cons name rest ih =>
    obtain ⟨hnode, hsize, hrest⟩ := walk_cons_eq_ok.mp h
    by_cases hname : Path.leads name = true
    · rw [List.filter_cons_of_pos hname, walk_cons_eq_ok]
      exact ⟨hnode, hsize, ih hrest⟩
    · rw [next_of_not_leads hname] at hrest
      rw [List.filter_cons_of_neg hname]
      exact ih hrest

theorem walk_replicate_append (hp : d.node? p = some .directory) (k : Nat)
    (components : List String) :
    d.walk p (List.replicate k "" ++ components) = d.walk p components := by
  induction k with
  | zero => rfl
  | succ k ih =>
    have hnext : d.next p "" = p := next_of_not_leads (by decide) p
    have hsize : ¬nameLimit < "".utf8ByteSize := by decide
    rw [List.replicate_succ, List.cons_append, walk, hp]
    simp only [if_neg hsize, hnext, ih]

/-- A walk passes through directories only, so what replaces no directory does not change it. -/
theorem walk_put (hp : d.node? p ≠ some .directory) {components : List String}
    (h : d.walk q components = .ok r) : (d.put p n).walk q components = .ok r := by
  induction components generalizing q with
  | nil => exact h
  | cons name rest ih =>
    obtain ⟨hnode, hsize, hrest⟩ := walk_cons_eq_ok.mp h
    -- The walk goes on from a directory, and what was replaced is none.
    have hne : q ≠ p := by
      rintro rfl
      exact hp hnode
    rw [walk_cons_eq_ok, node?_put_of_ne hne]
    exact ⟨hnode, hsize, ih hrest⟩

theorem follow_eq_ok {components : List String} :
    d.follow path components = .ok q ↔
      path ≠ "" ∧ path.utf8ByteSize ≤ pathLimit ∧ d.walk (d.origin path) components = .ok q := by
  unfold follow
  split
  · simp [*]
  · split
    · simp [*]
    · simp [Nat.not_lt.mp, *]

/-- Whether a path leads to a place. Paths that lead to one place name one file. -/
def LeadsTo (d : Disk) (path : String) (p : Place) : Prop :=
  d.follow path (Path.components path) = .ok p

instance (d : Disk) (path : String) (p : Place) : Decidable (d.LeadsTo path p) :=
  inferInstanceAs (Decidable (_ = _))

theorem LeadsTo.eq (h : d.LeadsTo path p) (h' : d.LeadsTo path q) : p = q :=
  Except.ok.inj (h.symm.trans h')

theorem LeadsTo.put (h : d.LeadsTo path q) (hp : d.node? p ≠ some .directory) (n : Node) :
    (d.put p n).LeadsTo path q := by
  obtain ⟨hne, hsize, hwalk⟩ := follow_eq_ok.mp h
  exact follow_eq_ok.mpr ⟨hne, hsize, walk_put hp hwalk⟩

theorem LeadsTo.walk_names (h : d.LeadsTo path p) :
    d.walk (d.origin path) (Path.names path) = .ok p :=
  walk_filter_leads (follow_eq_ok.mp h).2.2

/-- A path without names leads to where it starts, which is a directory. -/
theorem LeadsTo.names_ne_nil (h : d.LeadsTo path p) (hp : d.node? p ≠ some .directory) :
    Path.names path ≠ [] := by
  intro hempty
  have hstart := h.walk_names
  rw [hempty, walk] at hstart
  obtain rfl := Except.ok.inj hstart
  obtain ⟨-, -, hwalk⟩ := follow_eq_ok.mp h
  cases hcomponents : Path.components path with
  | nil =>
    rw [Path.components, List.map_eq_nil_iff] at hcomponents
    exact Text.cutAt_ne_nil '/' path.toList hcomponents
  | cons name rest =>
    rw [hcomponents] at hwalk
    exact hp (walk_cons_eq_ok.mp hwalk).1

/-- A path with names leads to the same place in its plain form. -/
theorem LeadsTo.plain (h : d.LeadsTo path p) (hne : Path.names path ≠ []) :
    d.LeadsTo (Path.plain path) p := by
  have hnames : ∀ name ∈ Path.names path, Path.IsName name := fun _ => Path.isName_of_mem_names
  obtain ⟨k, hk⟩ := Path.components_fromRoot path hne hnames
  have hshort := (Path.utf8ByteSize_plain_le hne).trans (follow_eq_ok.mp h).2.1
  have horigin : d.origin (Path.fromRoot path (Path.names path)) = d.origin path := by
    unfold origin
    simp only [Path.root_fromRoot_eq_empty_iff hne hnames]
  have hwalk := h.walk_names
  have hstart : d.node? (d.origin path) = some .directory := by
    obtain ⟨name, rest, hcons⟩ := List.exists_cons_of_ne_nil hne
    rw [hcons] at hwalk
    exact (walk_cons_eq_ok.mp hwalk).1
  rw [Path.plain_eq_fromRoot hne] at hshort ⊢
  rw [LeadsTo, follow_eq_ok, horigin, hk, walk_replicate_append hstart]
  exact ⟨Path.fromRoot_ne_empty hne hnames, hshort, hwalk⟩

theorem solidComponents_eq (h : (Path.components path).getLast? ≠ some "") :
    solidComponents path = Path.components path := by
  have hdrop : (Path.components path).reverse.dropWhile (· = "") =
      (Path.components path).reverse := by
    rw [← List.head?_reverse] at h
    cases hreverse : (Path.components path).reverse with
    | nil => rfl
    | cons last others =>
      rw [hreverse] at h
      rw [List.dropWhile_cons_of_neg]
      simpa using h
  rw [solidComponents, hdrop, List.reverse_reverse]

theorem writable_eq_ok_iff : d.writable path = .ok p ↔
    d.LeadsTo path p ∧ (Path.components path).getLast? ≠ some "" ∧
      d.node? p ≠ some .directory ∧ d.node? p.parent = some .directory := by
  by_cases hlast : (Path.components path).getLast? = some ""
  · unfold writable
    cases d.follow path (solidComponents path) with
    | error e => simp [hlast]
    | ok q => simp [hlast]
  · unfold writable LeadsTo
    rw [solidComponents_eq hlast]
    cases d.follow path (Path.components path) with
    | error e => simp
    | ok q =>
      simp only [hlast, false_or]
      split
      · grind
      · split <;> grind

theorem leadsTo_of_writable (h : d.writable path = .ok p) : d.LeadsTo path p :=
  (writable_eq_ok_iff.mp h).1

theorem not_directory_of_writable (h : d.writable path = .ok p) : d.node? p ≠ some .directory :=
  (writable_eq_ok_iff.mp h).2.2.1

theorem names_ne_nil_of_node? (h : d.node? p ≠ some .directory) : p.names ≠ [] :=
  fun hempty => h (if_pos hempty)

theorem stat_eq_ok : d.stat path = .ok (p, n) ↔ d.LeadsTo path p ∧ d.node? p = some n := by
  unfold stat LeadsTo
  cases d.follow path (Path.components path) with
  | error e => simp
  | ok q => cases hnode : d.node? q <;> grind

theorem read_eq_ok {bytes : List UInt8} : d.read path = .ok bytes ↔
    ∃ p, d.LeadsTo path p ∧ d.node? p = some (.file bytes) ∧ p ∉ d.unreadable := by
  unfold read
  cases hstat : d.stat path with
  | error e =>
    refine iff_of_false (by simp) ?_
    rintro ⟨p, hp, hnode, -⟩
    rw [stat_eq_ok.mpr ⟨hp, hnode⟩] at hstat
    cases hstat
  | ok x =>
    obtain ⟨q, n⟩ := x
    obtain ⟨hq, hn⟩ := stat_eq_ok.mp hstat
    have hplace : (∃ p, d.LeadsTo path p ∧ d.node? p = some (.file bytes) ∧ p ∉ d.unreadable) ↔
        n = .file bytes ∧ q ∉ d.unreadable := by
      constructor
      · rintro ⟨p, hp, hnode, hread⟩
        obtain rfl := hp.eq hq
        exact ⟨Option.some.inj (hn.symm.trans hnode), hread⟩
      · rintro ⟨rfl, hread⟩
        exact ⟨q, hq, hn, hread⟩
    rw [hplace]
    dsimp only
    split
    · simp [*]
    · cases n <;> simp [*]

/-- What was written to a path is read from its plain form. -/
theorem read_put_of_writable (h : d.writable path = .ok p) (hread : p ∉ d.unreadable)
    (bytes : List UInt8) : (d.put p (.file bytes)).read (Path.plain path) = .ok bytes := by
  have hnode := not_directory_of_writable h
  have hleads := leadsTo_of_writable h
  rw [read_eq_ok]
  exact ⟨p, (hleads.plain (hleads.names_ne_nil hnode)).put hnode _,
    node?_put_self (names_ne_nil_of_node? hnode), hread⟩

/-- Lines that hold no line end are read back from the file that they were written to. -/
theorem writeLines_of_writable {ls : List String} (h : d.writable path = .ok p)
    (hread : p ∉ d.unreadable) (hls : ∀ l ∈ ls, ∀ c ∈ l.toList, Text.isLineEnd c = false) :
    ∃ after, d.writeLines path ls = .ok after ∧ after.lines path = .ok ls := by
  refine ⟨d.put p (.file (Text.encodeLines ls)), ?_, ?_⟩
  · simp only [writeLines, write, h]
  · rw [Text.encodeLines, lines_of_read (read_put_of_writable h hread _), Text.lines_unlines hls]

end Disk

end SicAssembler
