import SicAssembler.Dictionary
import Mathlib.Data.List.Induction
import Mathlib.Data.List.Nodup

/-!
# Dictionaries after many insertions

The names of a dictionary stand in the order in which they were first put, each of them once, and
have the values that were put last.
-/

namespace SicAssembler.Dictionary

variable {α : Type} {d : Dictionary α} {key : String}

def insertAll (d : Dictionary α) (pairs : List (String × α)) : Dictionary α :=
  pairs.foldl (fun d p => d.insert p.1 p.2) d

/-- The value that is put last under a name. -/
def lastOf (key : String) (pairs : List (String × α)) : Option α :=
  (pairs.filter (·.1 = key)).getLast?.map Prod.snd

@[simp] theorem insertAll_nil (d : Dictionary α) : d.insertAll [] = d := rfl

@[simp] theorem insertAll_cons (d : Dictionary α) (p : String × α) (pairs : List (String × α)) :
    d.insertAll (p :: pairs) = (d.insert p.1 p.2).insertAll pairs := rfl

theorem insertAll_append (d : Dictionary α) (pairs more : List (String × α)) :
    d.insertAll (pairs ++ more) = (d.insertAll pairs).insertAll more :=
  List.foldl_append

@[simp] theorem insertAll_concat (d : Dictionary α) (pairs : List (String × α)) (p : String × α) :
    d.insertAll (pairs ++ [p]) = (d.insertAll pairs).insert p.1 p.2 :=
  insertAll_append d pairs [p]

theorem get?_insert (d : Dictionary α) (key other : String) (value : α) :
    (d.insert key value).get? other = if key = other then some value else d.get? other := by
  split
  · rename_i h
    rw [h, get?_insert_self]
  · rename_i h
    exact get?_insert_of_ne d (Ne.symm h) value

theorem get?_insertAll (d : Dictionary α) (pairs : List (String × α)) (key : String) :
    (d.insertAll pairs).get? key = (lastOf key pairs).or (d.get? key) := by
  induction pairs using List.reverseRecOn with
  | nil => rfl
  | append_singleton pairs p ih =>
    rw [insertAll_concat, get?_insert, ih]
    by_cases h : p.1 = key
    · simp [lastOf, h]
    · simp [lastOf, h]

theorem lastOf_eq_none {pairs : List (String × α)} (h : key ∉ pairs.map Prod.fst) :
    lastOf key pairs = none := by
  rw [lastOf, Option.map_eq_none_iff, List.getLast?_eq_none_iff, List.filter_eq_nil_iff]
  intro p hp hkey
  exact h (List.mem_map.mpr ⟨p, hp, of_decide_eq_true hkey⟩)

theorem mem_of_lastOf {pairs : List (String × α)} {value : α} (h : lastOf key pairs = some value) :
    (key, value) ∈ pairs := by
  obtain ⟨p, hp, rfl⟩ := Option.map_eq_some_iff.mp h
  obtain ⟨hmem, hkey⟩ := List.mem_filter.mp (List.mem_of_getLast? hp)
  have hfirst : p.1 = key := of_decide_eq_true hkey
  rwa [← hfirst]

theorem eraseDups_concat (names : List String) (name : String) :
    (names ++ [name]).eraseDups =
      if name ∈ names then names.eraseDups else names.eraseDups ++ [name] := by
  rw [List.eraseDups_append]
  split
  · rename_i h
    simp [List.removeAll, h]
  · rename_i h
    have hnew : [name].removeAll names = [name] := by simp [List.removeAll, h]
    rw [hnew, List.eraseDups_cons]
    simp

/-- From nothing, the names come in the order of their first insertion. -/
theorem keys_insertAll_empty (pairs : List (String × α)) :
    ((empty : Dictionary α).insertAll pairs).keys = (pairs.map Prod.fst).eraseDups := by
  induction pairs using List.reverseRecOn with
  | nil => rfl
  | append_singleton pairs p ih =>
    rw [insertAll_concat, keys_insert, ih, List.map_append, List.map_singleton, eraseDups_concat]
    simp only [List.mem_eraseDups]

theorem nodup_keys_insert (h : d.keys.Nodup) (key : String) (value : α) :
    (d.insert key value).keys.Nodup := by
  rw [keys_insert]
  split
  · exact h
  · rename_i hkey
    exact List.nodup_append.mpr ⟨h, List.nodup_singleton key, by
      rintro a ha b hb rfl
      exact hkey (List.mem_singleton.mp hb ▸ ha)⟩

theorem nodup_keys_insertAll (pairs : List (String × α)) :
    ∀ {d : Dictionary α}, d.keys.Nodup → (d.insertAll pairs).keys.Nodup := by
  induction pairs with
  | nil =>
    intro d h
    exact h
  | cons p pairs ih =>
    intro d h
    exact ih (nodup_keys_insert h p.1 p.2)

theorem contains_iff_mem_keys : d.contains key = true ↔ key ∈ d.keys := by
  rw [contains, get?, List.lookup_isSome_iff, keys, List.mem_map]
  constructor
  · rintro ⟨p, hp, hkey⟩
    exact ⟨p, hp, (beq_iff_eq.mp hkey).symm⟩
  · rintro ⟨p, hp, hkey⟩
    exact ⟨p, hp, beq_iff_eq.mpr hkey.symm⟩

/-- Where each name stands once, every entry is found under its name. -/
theorem get?_of_mem_entries (h : d.keys.Nodup) {value : α} (hm : (key, value) ∈ d.entries) :
    d.get? key = some value := by
  obtain ⟨before, after, he⟩ := List.append_of_mem hm
  rw [keys, he, List.map_append, List.map_cons] at h
  refine List.lookup_eq_some_iff.mpr ⟨before, after, he, ?_⟩
  intro p hp
  rw [bne_iff_ne]
  rintro rfl
  exact (List.nodup_append.mp h).2.2 _ (List.mem_map_of_mem hp) _ List.mem_cons_self rfl

/-- A name that is new is put at the end. -/
theorem insert_of_not_mem_keys (h : key ∉ d.keys) (value : α) :
    d.insert key value = ⟨d.entries ++ [(key, value)]⟩ := by
  obtain ⟨entries⟩ := d
  simp only [insert, mk.injEq]
  induction entries with
  | nil => rfl
  | cons p entries ih =>
    obtain ⟨hfirst, hrest⟩ : key ≠ p.1 ∧ key ∉ (⟨entries⟩ : Dictionary α).keys := by
      simpa only [keys, List.map_cons, List.mem_cons, not_or] using h
    rw [put, if_neg hfirst.symm, ih hrest, List.cons_append]

/-- Names that are all different stand as they were put. -/
theorem insertAll_empty_of_nodup {pairs : List (String × α)} (h : (pairs.map Prod.fst).Nodup) :
    (empty : Dictionary α).insertAll pairs = ⟨pairs⟩ := by
  induction pairs using List.reverseRecOn with
  | nil => rfl
  | append_singleton pairs p ih =>
    rw [List.map_append, List.map_singleton, List.nodup_append] at h
    have hnew : p.1 ∉ (⟨pairs⟩ : Dictionary α).keys := fun hmem =>
      h.2.2 p.1 hmem p.1 (List.mem_singleton_self p.1) rfl
    rw [insertAll_concat, ih h.1, insert_of_not_mem_keys hnew]

section Map

variable {β : Type} (f : α → β)

def map (d : Dictionary α) : Dictionary β := ⟨d.entries.map fun p => (p.1, f p.2)⟩

theorem get?_map (d : Dictionary α) (key : String) : (d.map f).get? key = (d.get? key).map f := by
  obtain ⟨entries⟩ := d
  simp only [get?, map]
  induction entries with
  | nil => rfl
  | cons p entries ih =>
    rw [List.map_cons, List.lookup_cons, List.lookup_cons]
    cases key == p.1 with
    | true => rfl
    | false => exact ih

theorem insert_map (d : Dictionary α) (key : String) (value : α) :
    (d.map f).insert key (f value) = (d.insert key value).map f := by
  obtain ⟨entries⟩ := d
  simp only [insert, map, mk.injEq]
  induction entries with
  | nil => rfl
  | cons p entries ih =>
    rw [List.map_cons, put, put]
    by_cases h : p.1 = key
    · rw [if_pos h, if_pos h, List.map_cons]
    · rw [if_neg h, if_neg h, List.map_cons, ih]

theorem insertAll_map (pairs : List (String × α)) :
    ∀ d : Dictionary α, (d.map f).insertAll (pairs.map fun p => (p.1, f p.2)) =
      (d.insertAll pairs).map f := by
  induction pairs with
  | nil =>
    intro d
    rfl
  | cons p pairs ih =>
    intro d
    rw [List.map_cons, insertAll_cons, insertAll_cons, insert_map, ih]

end Map

end SicAssembler.Dictionary
