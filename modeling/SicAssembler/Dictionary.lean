import SicAssembler.Text.Quoted

/-!
# Dictionaries in order of first insertion

Names with values. A name keeps the place where it was first put, and has the value that was put
last.
-/

namespace SicAssembler

/-- Names with values, in order. -/
structure Dictionary (α : Type) where
  entries : List (String × α)
  deriving DecidableEq, Repr

structure MissingKey where
  key : String
  deriving DecidableEq, Repr

def MissingKey.text (m : MissingKey) : String := Text.quoted m.key

namespace Dictionary

variable {α : Type}

def empty : Dictionary α := ⟨[]⟩

/-- Puts a value under a name: at the place of that name, or at the end. -/
def put (key : String) (value : α) : List (String × α) → List (String × α)
  | [] => [(key, value)]
  | (k, v) :: rest => if k = key then (k, value) :: rest else (k, v) :: put key value rest

def insert (d : Dictionary α) (key : String) (value : α) : Dictionary α :=
  ⟨put key value d.entries⟩

def get? (d : Dictionary α) (key : String) : Option α := d.entries.lookup key

def get (d : Dictionary α) (key : String) : Except MissingKey α :=
  match d.get? key with
  | some value => .ok value
  | none => .error ⟨key⟩

def contains (d : Dictionary α) (key : String) : Bool := (d.get? key).isSome

def keys (d : Dictionary α) : List String := d.entries.map Prod.fst

def size (d : Dictionary α) : Nat := d.entries.length

theorem lookup_put_self (key : String) (value : α) (es : List (String × α)) :
    (put key value es).lookup key = some value := by
  induction es with
  | nil => simp [put]
  | cons e es ih =>
    obtain ⟨k, v⟩ := e
    by_cases h : k = key
    · simp [put, h]
    · have hb : (key == k) = false := beq_eq_false_iff_ne.mpr (Ne.symm h)
      simp [put, h, List.lookup_cons, hb, ih]

theorem lookup_put_of_ne {key other : String} (h : other ≠ key) (value : α)
    (es : List (String × α)) : (put key value es).lookup other = es.lookup other := by
  have hb : (other == key) = false := beq_eq_false_iff_ne.mpr h
  induction es with
  | nil => simp [put, List.lookup_cons, hb]
  | cons e es ih =>
    obtain ⟨k, v⟩ := e
    by_cases hk : k = key
    · simp [put, hk, List.lookup_cons, hb]
    · simp [put, hk, List.lookup_cons, ih]

@[simp] theorem get?_insert_self (d : Dictionary α) (key : String) (value : α) :
    (d.insert key value).get? key = some value := lookup_put_self key value d.entries

theorem get?_insert_of_ne (d : Dictionary α) {key other : String} (h : other ≠ key) (value : α) :
    (d.insert key value).get? other = d.get? other := lookup_put_of_ne h value d.entries

/-- A name that is new comes last; another keeps its place. -/
theorem keys_insert (d : Dictionary α) (key : String) (value : α) :
    (d.insert key value).keys = if key ∈ d.keys then d.keys else d.keys ++ [key] := by
  obtain ⟨es⟩ := d
  simp only [keys, insert]
  induction es with
  | nil => simp [put]
  | cons e es ih =>
    obtain ⟨k, v⟩ := e
    by_cases h : k = key
    · simp [put, h]
    · rw [put, if_neg h, List.map_cons, ih]
      by_cases hm : key ∈ es.map Prod.fst
      · simp [hm]
      · simp [hm, Ne.symm h]

end Dictionary

end SicAssembler
