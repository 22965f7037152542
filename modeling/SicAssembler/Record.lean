import SicAssembler.Text.Hex

/-!
# Object records

An object program is a header record, text records with code, and an end record. Addresses and
lengths have six hexadecimal digits, and a text record holds at most thirty bytes.
-/

namespace SicAssembler

/-- The fields of records that hold an address or a length. -/
inductive RecordField where
  | startAddress
  | programLength
  | textStart
  | executionAddress
  deriving DecidableEq, Repr

def RecordField.name : RecordField → String
  | startAddress => "start address"
  | programLength => "program length"
  | textStart => "text start address"
  | executionAddress => "execution address"

inductive RecordFault where
  | fieldTooWide (field : RecordField) (value : Int)
  | noUnits
  | unitNotBytes (unit : String)
  | tooManyBytes (start : Int) (length : Nat)
  | chunkSizeZero
  deriving DecidableEq, Repr

def maxTextBytes : Nat := 30

def RecordFault.text : RecordFault → String
  | fieldTooWide field value =>
    s!"{field.name} {Text.markedHex value} does not fit in six hex digits"
  | noUnits => "text record must hold at least one code unit"
  | unitNotBytes unit => s!"code unit '{unit}' is not a whole number of hex bytes"
  | tooManyBytes start length =>
    s!"text record at {Text.hexField 6 start} holds {length} bytes (limit {maxTextBytes})"
  | chunkSizeZero => "range() arg 3 must not be zero"

def RecordField.fault? (field : RecordField) (value : Int) : Option RecordFault :=
  if 0 ≤ value ∧ value ≤ 0xFFFFFF then none else some (.fieldTooWide field value)

/-- The bytes of a code unit, which is hexadecimal text. -/
def unitSize (unit : String) : Nat := unit.length / 2

def unitsSize : List String → Nat
  | [] => 0
  | unit :: units => unitSize unit + unitsSize units

@[simp] theorem unitsSize_nil : unitsSize [] = 0 := rfl

@[simp] theorem unitsSize_cons (unit : String) (units : List String) :
    unitsSize (unit :: units) = unitSize unit + unitsSize units := rfl

@[simp] theorem unitsSize_append (units more : List String) :
    unitsSize (units ++ more) = unitsSize units + unitsSize more := by
  induction units with
  | nil => simp
  | cons unit units ih => simp [ih, Nat.add_assoc]

/-- Code units that load one after another from an address on. -/
structure TextRecord where
  start : Int
  units : List String
  deriving DecidableEq, Repr

namespace TextRecord

def length (r : TextRecord) : Nat := unitsSize r.units

def finish (r : TextRecord) : Int := r.start + r.length

def bytes (r : TextRecord) : List UInt8 := r.units.flatMap Text.hexBytes

/-- What keeps units from loading together at an address. -/
def fault? (r : TextRecord) : Option RecordFault :=
  if r.units = [] then some .noUnits
  else match r.units.find? (!Text.isHexBytes ·) with
    | some unit => some (.unitNotBytes unit)
    | none => if maxTextBytes < r.length then some (.tooManyBytes r.start r.length) else none

/-- Makes a record of units that are whole bytes and not too many. -/
def make (start : Int) (units : List String) : Except RecordFault TextRecord :=
  match RecordField.textStart.fault? start, fault? ⟨start, units⟩ with
  | some e, _ => .error e
  | none, some e => .error e
  | none, none => .ok ⟨start, units⟩

theorem make_eq_ok {start : Int} {units : List String} {r : TextRecord} :
    make start units = .ok r ↔
      r = ⟨start, units⟩ ∧ (0 ≤ start ∧ start ≤ 0xFFFFFF) ∧ fault? r = none := by
  by_cases hs : 0 ≤ start ∧ start ≤ 0xFFFFFF
  · have hf : RecordField.textStart.fault? start = none := if_pos hs
    cases hu : fault? ⟨start, units⟩ with
    | none =>
      simp only [make, hf, hu, Except.ok.injEq]
      constructor
      · rintro rfl
        exact ⟨rfl, hs, hu⟩
      · rintro ⟨rfl, -, -⟩
        rfl
    | some e =>
      simp only [make, hf, hu, reduceCtorEq, false_iff]
      rintro ⟨rfl, -, h⟩
      rw [hu] at h
      cases h
  · have hf : RecordField.textStart.fault? start = some (.fieldTooWide .textStart start) :=
      if_neg hs
    simp only [make, hf, reduceCtorEq, false_iff]
    rintro ⟨-, h, -⟩
    exact hs h

/-- A record without fault holds units that are whole bytes, not too many. -/
theorem fault?_eq_none {r : TextRecord} :
    r.fault? = none ↔
      r.units ≠ [] ∧ (∀ unit ∈ r.units, Text.isHexBytes unit = true) ∧
        r.length ≤ maxTextBytes := by
  unfold fault?
  by_cases hu : r.units = []
  · simp [hu]
  · rw [if_neg hu]
    cases hf : r.units.find? (!Text.isHexBytes ·) with
    | some unit =>
      have hb := List.find?_some hf
      simp only [reduceCtorEq, false_iff]
      rintro ⟨-, h, -⟩
      simp [h unit (List.mem_of_find?_eq_some hf)] at hb
    | none =>
      rw [List.find?_eq_none] at hf
      have hall : ∀ unit ∈ r.units, Text.isHexBytes unit = true := by
        intro unit hm
        simpa using hf unit hm
      by_cases hl : maxTextBytes < r.length
      · simp only [if_pos hl, reduceCtorEq, false_iff]
        rintro ⟨-, -, h⟩
        omega
      · simp only [if_neg hl, true_iff]
        exact ⟨hu, hall, Nat.not_lt.mp hl⟩

def render (r : TextRecord) : String :=
  String.join (("T" :: Text.hexField 6 r.start :: r.units).map (· ++ "^ "))

end TextRecord

inductive Record where
  | header (name : String) (start length : Int)
  | text (record : TextRecord)
  | finish (address : Int)
  deriving DecidableEq, Repr

namespace Record

def makeHeader (name : String) (start length : Int) : Except RecordFault Record :=
  match RecordField.startAddress.fault? start, RecordField.programLength.fault? length with
  | some e, _ => .error e
  | none, some e => .error e
  | none, none => .ok (.header name start length)

def makeFinish (address : Int) : Except RecordFault Record :=
  match RecordField.executionAddress.fault? address with
  | some e => .error e
  | none => .ok (.finish address)

def letter : Record → String
  | header _ _ _ => "H"
  | text _ => "T"
  | finish _ => "E"

def render : Record → String
  | header name start length =>
    String.intercalate "^ " ["H", name, Text.hexField 6 start, Text.hexField 6 length]
  | text record => record.render
  | finish address => String.intercalate "^ " ["E", Text.hexField 6 address]

end Record

end SicAssembler
