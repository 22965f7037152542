import SicAssembler.Packing
import Mathlib.Data.List.Chain

/-!
# What a packer does with the pieces it is given

Groups keep whole pieces where a packer keeps only the start of a record and its units, so they
remember where each unit came from. As long as a packer is not refused, its records are those of
the groups, and the groups hold every piece once and in order.
-/

namespace SicAssembler

/-- Pieces cut into finished groups and a pending one. -/
structure Groups (α : Type) where
  finished : List (List α)
  pending : List α

namespace Groups

variable {α : Type} (code : α → String) (address : α → Int) (limit : Int)

def empty : Groups α := ⟨[], []⟩

def close : Groups α → Groups α
  | ⟨finished, []⟩ => ⟨finished, []⟩
  | ⟨finished, x :: xs⟩ => ⟨finished ++ [x :: xs], []⟩

def all (g : Groups α) : List α := g.finished.flatten ++ g.pending

def size (xs : List α) : Nat := unitsSize (xs.map code)

def put (g : Groups α) (x : α) : Groups α := ⟨g.finished, g.pending ++ [x]⟩

/-- Takes a piece. The pending group is finished before it if the piece does not fit, and after it
if the group is full. -/
def push (g : Groups α) (x : α) : Groups α :=
  let room := if limit < size code g.pending + unitSize (code x) then g.close else g
  if limit ≤ size code (room.put x).pending then (room.put x).close else room.put x

/-- The record of a group: it starts at the address of its first piece. -/
def record (xs : List α) : TextRecord := ⟨(xs.head?.map address).getD 0, xs.map code⟩

variable {code address limit}

@[simp] theorem pending_close (g : Groups α) : g.close.pending = [] := by
  obtain ⟨finished, pending⟩ := g
  cases pending <;> rfl

@[simp] theorem all_close (g : Groups α) : g.close.all = g.all := by
  obtain ⟨finished, pending⟩ := g
  cases pending <;> simp [close, all]

@[simp] theorem all_put (g : Groups α) (x : α) : (g.put x).all = g.all ++ [x] := by
  simp [all, put]

/-- A piece is put after the pending group or starts a new one, which may then be finished. -/
theorem push_cases (code : α → String) (limit : Int) (g : Groups α) (x : α) :
    ∃ room, (room = g ∨ room = g.close) ∧
      (push code limit g x = room.put x ∨ push code limit g x = (room.put x).close) := by
  refine ⟨if limit < size code g.pending + unitSize (code x) then g.close else g, ?_, ?_⟩
  · split
    · exact .inr rfl
    · exact .inl rfl
  · unfold push
    dsimp only
    by_cases hfull : limit ≤ size code
        ((if limit < size code g.pending + unitSize (code x) then g.close else g).put x).pending
    · exact .inr (if_pos hfull)
    · exact .inl (if_neg hfull)

@[simp] theorem all_push (g : Groups α) (x : α) : (push code limit g x).all = g.all ++ [x] := by
  obtain ⟨room, hroom, hpush⟩ := push_cases code limit g x
  have hall : room.all = g.all := by
    rcases hroom with rfl | rfl
    · rfl
    · exact all_close g
  rcases hpush with h | h
  · rw [h, all_put, hall]
  · rw [h, all_close, all_put, hall]

theorem all_pushes (g : Groups α) (xs : List α) :
    (xs.foldl (push code limit) g).all = g.all ++ xs := by
  induction xs generalizing g with
  | nil => simp
  | cons x xs ih => simp [ih]

/-- After a piece as large as the limit no group is pending. -/
theorem pending_push_of_full (g : Groups α) {x : α} (h : limit ≤ unitSize (code x)) :
    (push code limit g x).pending = [] := by
  unfold push
  dsimp only
  rw [if_pos]
  · exact pending_close _
  · simp only [put, size, List.map_append, List.map_cons, List.map_nil, unitsSize_append,
      unitsSize_cons, unitsSize_nil]
    omega

/-- A piece ends the pending group, unless that group was finished with it. -/
theorem pending_push (g : Groups α) (x : α) :
    (push code limit g x).pending = [] ∨ (push code limit g x).pending.getLast? = some x := by
  obtain ⟨room, -, hpush⟩ := push_cases code limit g x
  rcases hpush with h | h
  · exact .inr (by simp [h, put])
  · exact .inl (by simp [h])

section Links

variable {R : α → α → Prop}

/-- Each piece of a group is linked to the one before it. -/
structure Linked (R : α → α → Prop) (g : Groups α) : Prop where
  finished : ∀ xs ∈ g.finished, xs ≠ [] ∧ xs.IsChain R
  pending : g.pending.IsChain R

theorem Linked.empty : Linked R (Groups.empty : Groups α) where
  finished := by
    intro xs hx
    cases hx
  pending := .nil

theorem Linked.close {g : Groups α} (h : Linked R g) : Linked R g.close := by
  obtain ⟨finished, pending⟩ := g
  cases pending with
  | nil => exact h
  | cons x xs =>
    refine ⟨?_, .nil⟩
    intro ys hy
    rcases List.mem_append.mp hy with hy | hy
    · exact h.finished ys hy
    · obtain rfl := List.mem_singleton.mp hy
      exact ⟨List.cons_ne_nil x xs, h.pending⟩

theorem Linked.put {g : Groups α} (h : Linked R g) {x : α}
    (hx : ∀ y ∈ g.pending.getLast?, R y x) : Linked R (g.put x) := by
  refine ⟨h.finished, h.pending.append (List.isChain_singleton x) ?_⟩
  intro y hy z hz
  cases hz
  exact hx y hy

theorem Linked.push {g : Groups α} (h : Linked R g) {x : α}
    (hx : ∀ y ∈ g.pending.getLast?, R y x) : Linked R (Groups.push code limit g x) := by
  obtain ⟨room, hroom, hpush⟩ := push_cases code limit g x
  have hput : Linked R (room.put x) := by
    rcases hroom with rfl | rfl
    · exact h.put hx
    · exact h.close.put (by simp)
  rcases hpush with hp | hp
  · exact hp ▸ hput
  · exact hp ▸ hput.close

/-- Pieces of which all but the last are as large as the limit need a link only for the first. -/
theorem Linked.pushes {xs : List α} :
    ∀ {g : Groups α}, Linked R g →
      xs.IsChain (fun x _ => limit ≤ unitSize (code x)) →
      (∀ y ∈ g.pending.getLast?, ∀ x ∈ xs.head?, R y x) →
      Linked R (xs.foldl (Groups.push code limit) g) := by
  induction xs with
  | nil =>
    intro g h _ _
    exact h
  | cons x xs ih =>
    intro g h hfull hx
    rw [List.isChain_cons] at hfull
    apply ih (h.push (fun y hy => hx y hy x rfl)) hfull.2
    intro y hy z hz
    rw [pending_push_of_full g (hfull.1 z hz)] at hy
    cases hy

/-- What the last piece of the pending group is after some pieces. -/
theorem pending_pushes (xs : List α) (x : α) (g : Groups α) :
    let after := (xs ++ [x]).foldl (push code limit) g
    after.pending = [] ∨ after.pending.getLast? = some x := by
  simp only [List.foldl_append, List.foldl_cons, List.foldl_nil]
  exact pending_push _ x

end Links

section Map

variable {β : Type} {code' : β → String}

def map (f : α → β) (g : Groups α) : Groups β := ⟨g.finished.map (List.map f), g.pending.map f⟩

variable {f : α → β}

theorem close_map (g : Groups α) : (g.map f).close = g.close.map f := by
  obtain ⟨finished, pending⟩ := g
  cases pending <;> simp [close, map]

theorem put_map (g : Groups α) (x : α) : (g.map f).put (f x) = (g.put x).map f := by
  simp [put, map]

theorem size_map {xs : List α} (h : ∀ x ∈ xs, unitSize (code' (f x)) = unitSize (code x)) :
    size code' (xs.map f) = size code xs := by
  induction xs with
  | nil => rfl
  | cons x xs ih =>
    rw [List.forall_mem_cons] at h
    simp only [size, List.map_cons, unitsSize_cons] at ih ⊢
    rw [h.1, ih h.2]

/-- Where a group ends depends only on the sizes of its pieces. -/
theorem push_map {g : Groups α} {x : α}
    (hg : ∀ y ∈ g.pending, unitSize (code' (f y)) = unitSize (code y))
    (hx : unitSize (code' (f x)) = unitSize (code x)) :
    push code' limit (g.map f) (f x) = (push code limit g x).map f := by
  have hroom : (if limit < size code' (g.map f).pending + unitSize (code' (f x))
        then (g.map f).close else g.map f) =
      (if limit < size code g.pending + unitSize (code x) then g.close else g).map f := by
    rw [hx, map, size_map hg, ← map, close_map, apply_ite (map f)]
  have hpending : ∀ y ∈ (if limit < size code g.pending + unitSize (code x)
      then g.close else g).pending, unitSize (code' (f y)) = unitSize (code y) := by
    split
    · rw [pending_close]
      intro y hy
      cases hy
    · exact hg
  unfold push
  rw [hroom]
  generalize (if limit < size code g.pending + unitSize (code x) then g.close else g) = room
    at hpending ⊢
  have hsize : size code' ((room.put x).map f).pending = size code (room.put x).pending := by
    apply size_map
    intro y hy
    rcases List.mem_append.mp hy with hy | hy
    · exact hpending y hy
    · rw [List.mem_singleton.mp hy, hx]
  dsimp only
  rw [put_map, hsize, close_map, apply_ite (map f)]

theorem pushes_map {xs : List α} (hxs : ∀ x ∈ xs, unitSize (code' (f x)) = unitSize (code x)) :
    ∀ {g : Groups α}, (∀ y ∈ g.all, unitSize (code' (f y)) = unitSize (code y)) →
      (xs.map f).foldl (push code' limit) (g.map f) = (xs.foldl (push code limit) g).map f := by
  induction xs with
  | nil =>
    intro g _
    rfl
  | cons x xs ih =>
    intro g hg
    rw [List.forall_mem_cons] at hxs
    rw [List.map_cons, List.foldl_cons, List.foldl_cons,
      push_map (fun y hy => hg y (List.mem_append_right _ hy)) hxs.1]
    apply ih hxs.2
    rw [all_push, List.forall_mem_append, List.forall_mem_singleton]
    exact ⟨hg, hxs.1⟩

end Map

end Groups

namespace Packer

variable {α : Type} {code : α → String} {address : α → Int} {limit : Int}

/-- A packer holds the records of groups, of which each could be made. -/
structure Tracks (code : α → String) (address : α → Int) (limit : Int) (p : Packer)
    (g : Groups α) : Prop where
  limit_eq : p.limit = limit
  records : p.records = g.finished.map (Groups.record code address)
  start : p.start = g.pending.head?.map address
  units : p.units = g.pending.map code
  length : p.length = Groups.size code g.pending
  made : ∀ r ∈ p.records, r.fault? = none

theorem tracks_empty (limit : Int) : Tracks code address limit (empty limit) .empty where
  limit_eq := rfl
  records := rfl
  start := rfl
  units := rfl
  length := rfl
  made := by
    intro r hr
    cases hr

theorem flush_tracks {p : Packer} {g : Groups α} (h : Tracks code address limit p g)
    (hr : p.flush.refusal = none) : Tracks code address limit p.flush.state g.close := by
  obtain ⟨finished, pending⟩ := g
  cases pending with
  | nil =>
    have hs : p.start = none := h.start
    have hf : p.flush = .done p := by simp [flush, hs]
    rw [hf]
    exact h
  | cons x xs =>
    have hs : p.start = some (address x) := h.start
    cases hm : TextRecord.make (address x) p.units with
    | error e => simp [flush, hs, hm, Step.refused] at hr
    | ok r =>
      obtain ⟨rfl, -, hfault⟩ := TextRecord.make_eq_ok.mp hm
      have hf : p.flush.state =
          ⟨p.limit, p.records ++ [⟨address x, p.units⟩], none, [], 0⟩ := by
        simp [flush, hs, hm]
      rw [hf]
      refine ⟨h.limit_eq, ?_, rfl, rfl, rfl, ?_⟩
      · simp [Groups.close, Groups.record, h.records, h.units]
      · intro r hmem
        rcases List.mem_append.mp hmem with hmem | hmem
        · exact h.made r hmem
        · obtain rfl := List.mem_singleton.mp hmem
          exact hfault

theorem append_tracks {p : Packer} {g : Groups α} (h : Tracks code address limit p g) (x : α) :
    Tracks code address limit (p.append (address x) (code x)) (g.put x) where
  limit_eq := h.limit_eq
  records := h.records
  start := by
    cases hp : g.pending <;> simp [append, Groups.put, h.start, hp]
  units := by simp [append, Groups.put, h.units]
  length := by simp [append, Groups.put, h.length, Groups.size]
  made := h.made

theorem makeRoom_tracks {p : Packer} {g : Groups α} (h : Tracks code address limit p g) {n : Nat}
    (hr : (p.makeRoom n).refusal = none) :
    Tracks code address limit (p.makeRoom n).state
      (if limit < Groups.size code g.pending + n then g.close else g) := by
  unfold makeRoom at hr ⊢
  rw [h.limit_eq, h.length] at hr ⊢
  by_cases hopen : p.isOpen = true
  · by_cases hn : limit < Groups.size code g.pending + n
    · rw [if_pos ⟨hopen, hn⟩] at hr ⊢
      rw [if_pos hn]
      exact flush_tracks h hr
    · rw [if_neg (fun hc => hn hc.2), if_neg hn]
      exact h
  · -- Without a pending group closing changes nothing.
    have hp : g.pending = [] := by
      rw [isOpen, h.start] at hopen
      simpa using hopen
    have hg : g.close = g := by
      obtain ⟨finished, pending⟩ := g
      cases hp
      rfl
    rw [if_neg (fun hc => hopen hc.1), hg, ite_self]
    exact h

theorem closeFull_tracks {p : Packer} {g : Groups α} (h : Tracks code address limit p g)
    (hr : p.closeFull.refusal = none) :
    Tracks code address limit p.closeFull.state
      (if limit ≤ Groups.size code g.pending then g.close else g) := by
  unfold closeFull at hr ⊢
  rw [h.limit_eq, h.length] at hr ⊢
  split
  · rename_i hn
    rw [if_pos hn] at hr
    exact flush_tracks h hr
  · exact h

theorem add_tracks {p : Packer} {g : Groups α} (h : Tracks code address limit p g) {x : α}
    (hr : (p.add (address x) (code x)).refusal = none) :
    Tracks code address limit (p.add (address x) (code x)).state (g.push code limit x) := by
  unfold add at hr ⊢
  obtain ⟨hroom, hfull⟩ := Step.refusal_andThen_eq_none.mp hr
  rw [Step.state_andThen hroom]
  exact closeFull_tracks (append_tracks (makeRoom_tracks h hroom) x) hfull

/-- The addresses of pieces are one limit apart. -/
def Stepped (address : α → Int) (limit : Int) : Int → List α → Prop
  | _, [] => True
  | a, x :: xs => address x = a ∧ Stepped address limit (a + limit) xs

theorem addChunks_tracks {xs : List α} :
    ∀ {p : Packer} {g : Groups α} {a : Int}, Tracks code address limit p g →
      Stepped address limit a xs → (p.addChunks a (xs.map code)).refusal = none →
      Tracks code address limit (p.addChunks a (xs.map code)).state
        (xs.foldl (Groups.push code limit) g) := by
  induction xs with
  | nil =>
    intro p g a h _ _
    exact h
  | cons x xs ih =>
    intro p g a h hstep hr
    obtain ⟨rfl, hrest⟩ := hstep
    rw [List.map_cons, addChunks] at hr ⊢
    obtain ⟨hadd, hmore⟩ := Step.refusal_andThen_eq_none.mp hr
    rw [h.limit_eq] at hmore
    rw [Step.state_andThen hadd, h.limit_eq]
    exact ih (add_tracks h hadd) hrest hmore

end Packer

end SicAssembler
