import SicAssembler.Proofs.Grouping
import Mathlib.Data.List.Induction
import Mathlib.Logic.Relation

/-!
# What a packer does under any calls

A packer may be given any units at any addresses, and calls may go on after one was refused. Whatever
is asked of it, a packer only puts units into the pending record and closes that record, so what it
holds stays consistent. A pending record that is rejected stays rejected, whatever is put into it. As
long as nothing is refused, the records hold all that was given, in order.
-/

namespace SicAssembler

namespace Packer

inductive Call where
  | add (address : Int) (unit : String)
  | addBytes (address : Int) (payload : String)
  | flush
  deriving DecidableEq, Repr

def perform (p : Packer) : Call → Step Packer RecordFault
  | .add address unit => p.add address unit
  | .addBytes address payload => p.addBytes address payload
  | .flush => p.flush

/-- The packer that calls leave behind, one after another, whether they are refused or not. -/
def run (p : Packer) (calls : List Call) : Packer :=
  calls.foldl (fun p call => (p.perform call).state) p

def grants (p : Packer) : List Call → Bool
  | [] => true
  | call :: rest => (p.perform call).refusal.isNone && (p.perform call).state.grants rest

/-- The pending record cannot be made, for the given reason. -/
def Rejects (p : Packer) (e : RecordFault) : Prop :=
  ∃ start, p.start = some start ∧ TextRecord.make start p.units = .error e

variable {p q : Packer} {limit : Int}

@[simp] theorem run_append (p : Packer) (calls more : List Call) :
    p.run (calls ++ more) = (p.run calls).run more :=
  List.foldl_append

@[simp] theorem run_singleton (p : Packer) (call : Call) : p.run [call] = (p.perform call).state :=
  rfl

theorem grants_append (calls more : List Call) :
    ∀ p : Packer, p.grants (calls ++ more) = (p.grants calls && (p.run calls).grants more) := by
  induction calls with
  | nil =>
    intro p
    rfl
  | cons call calls ih =>
    intro p
    rw [List.cons_append, grants, grants, ih, Bool.and_assoc]
    rfl

section Moves

/-- The single changes of a packer: a unit is put into the pending record, or that record is
closed. -/
inductive Move : Packer → Packer → Prop where
  | append (p : Packer) (address : Int) (unit : String) : Move p (p.append address unit)
  | close {p : Packer} {start : Int} {r : TextRecord} (hs : p.start = some start)
      (hr : TextRecord.make start p.units = .ok r) :
      Move p ⟨p.limit, p.records ++ [r], none, [], 0⟩

def Leads : Packer → Packer → Prop := Relation.ReflTransGen Move

/-- An operation on a packer makes some moves, and if it is refused then for the record that it
leaves pending. -/
structure Yields (p : Packer) (x : Step Packer RecordFault) : Prop where
  leads : Leads p x.state
  rejects : ∀ e, x.refusal = some e → x.state.Rejects e

theorem yields_done (h : Leads p q) : Yields p (.done q) where
  leads := h
  rejects := by
    intro e he
    cases he

theorem Yields.of_leads {x : Step Packer RecordFault} (h : Leads p q) (hx : Yields q x) :
    Yields p x :=
  ⟨h.trans hx.leads, hx.rejects⟩

theorem Yields.andThen {x : Step Packer RecordFault} {f : Packer → Step Packer RecordFault}
    (hx : Yields p x) (hf : ∀ q, Yields q (f q)) : Yields p (x.andThen f) := by
  unfold Step.andThen
  split
  · exact ⟨hx.leads.trans (hf x.state).leads, (hf x.state).rejects⟩
  · exact hx

theorem flush_yields (p : Packer) : Yields p p.flush := by
  unfold flush
  split
  · exact yields_done .refl
  · rename_i start hs
    split
    · rename_i r hr
      refine ⟨.single (.close hs hr), ?_⟩
      intro e he
      cases he
    · rename_i e hr
      refine ⟨.refl, ?_⟩
      rintro _ ⟨⟩
      exact ⟨start, hs, hr⟩

theorem makeRoom_yields (p : Packer) (n : Nat) : Yields p (p.makeRoom n) := by
  unfold makeRoom
  split
  · exact flush_yields p
  · exact yields_done .refl

theorem closeFull_yields (p : Packer) : Yields p p.closeFull := by
  unfold closeFull
  split
  · exact flush_yields p
  · exact yields_done .refl

theorem add_yields (p : Packer) (address : Int) (unit : String) :
    Yields p (p.add address unit) := by
  apply (makeRoom_yields p (unitSize unit)).andThen
  intro q
  exact (closeFull_yields _).of_leads (.single (.append q address unit))

theorem addChunks_yields (units : List String) :
    ∀ (p : Packer) (address : Int), Yields p (p.addChunks address units) := by
  induction units with
  | nil =>
    intro p address
    exact yields_done .refl
  | cons unit units ih =>
    intro p address
    exact (add_yields p address unit).andThen fun q => ih q _

/-- A call makes some moves. Only bytes that would have to be cut into pieces of no size are refused
for another reason than the pending record, and then nothing changes. -/
theorem perform_yields (p : Packer) (call : Call) :
    Yields p (p.perform call) ∨
      p.limit = 0 ∧ p.perform call = .refused p .chunkSizeZero := by
  cases call with
  | add address unit => exact .inl (add_yields p address unit)
  | flush => exact .inl (flush_yields p)
  | addBytes address payload =>
    by_cases h : p.limit = 0
    · exact .inr ⟨h, if_pos h⟩
    · have hbytes : p.perform (.addBytes address payload) =
          p.addChunks address ((chunks (2 * p.limit.toNat) payload.toList).map String.ofList) :=
        if_neg h
      rw [hbytes]
      exact .inl (addChunks_yields _ p address)

theorem perform_leads (p : Packer) (call : Call) : Leads p (p.perform call).state := by
  rcases perform_yields p call with h | ⟨-, h⟩
  · exact h.leads
  · rw [h]
    exact .refl

theorem run_leads (calls : List Call) : ∀ p : Packer, Leads p (p.run calls) := by
  induction calls with
  | nil =>
    intro p
    exact .refl
  | cons call calls ih =>
    intro p
    exact (perform_leads p call).trans (ih _)

end Moves

section Invariants

/-- What holds at all times of a packer that was made with a limit. -/
structure Sound (limit : Int) (p : Packer) : Prop where
  limit_eq : p.limit = limit
  length_eq : p.length = unitsSize p.units
  start_eq_none_iff : p.start = none ↔ p.units = []
  made : ∀ r ∈ p.records, r.fault? = none

theorem sound_empty (limit : Int) : Sound limit (empty limit) where
  limit_eq := rfl
  length_eq := rfl
  start_eq_none_iff := ⟨fun _ => rfl, fun _ => rfl⟩
  made := by
    intro r hr
    cases hr

theorem Move.sound (h : Move p q) (hp : Sound limit p) : Sound limit q := by
  cases h with
  | append address unit =>
    refine ⟨hp.limit_eq, ?_, ?_, hp.made⟩
    · simp [Packer.append, hp.length_eq]
    · simp [Packer.append]
  | close hs hr =>
    refine ⟨hp.limit_eq, rfl, ⟨fun _ => rfl, fun _ => rfl⟩, ?_⟩
    rw [List.forall_mem_append, List.forall_mem_singleton]
    exact ⟨hp.made, (TextRecord.make_eq_ok.mp hr).2.2⟩

theorem Move.records_grow (h : Move p q) : p.records <+: q.records := by
  cases h with
  | append address unit => exact List.prefix_refl _
  | close hs hr => exact List.prefix_append _ _

theorem Leads.sound (h : Leads p q) (hp : Sound limit p) : Sound limit q := by
  induction h with
  | refl => exact hp
  | tail _ hmove ih => exact hmove.sound ih

theorem Leads.records_grow (h : Leads p q) : p.records <+: q.records := by
  induction h with
  | refl => exact List.prefix_refl _
  | tail _ hmove ih => exact ih.trans hmove.records_grow

theorem sound_run (limit : Int) (calls : List Call) :
    Sound limit ((empty limit).run calls) :=
  (run_leads calls _).sound (sound_empty limit)

end Invariants

section Rejection

theorem exists_make_concat_eq_error {start : Int} {units : List String} {e : RecordFault}
    (hne : units ≠ []) (h : TextRecord.make start units = .error e) (unit : String) :
    ∃ e', TextRecord.make start (units ++ [unit]) = .error e' := by
  cases hm : TextRecord.make start (units ++ [unit]) with
  | error e' => exact ⟨e', rfl⟩
  | ok r =>
    obtain ⟨rfl, hrange, hfault⟩ := TextRecord.make_eq_ok.mp hm
    obtain ⟨-, hhex, hlength⟩ := TextRecord.fault?_eq_none.mp hfault
    have hfault' : (⟨start, units⟩ : TextRecord).fault? = none := by
      refine TextRecord.fault?_eq_none.mpr ⟨hne, ?_, ?_⟩
      · intro u hu
        exact hhex u (List.mem_append_left _ hu)
      · simp only [TextRecord.length, unitsSize_append] at hlength ⊢
        omega
    rw [TextRecord.make_eq_ok.mpr ⟨rfl, hrange, hfault'⟩] at h
    cases h

theorem Move.rejects (h : Move p q) (hp : Sound limit p) {e : RecordFault} (he : p.Rejects e) :
    (∃ e', q.Rejects e') ∧ q.records = p.records := by
  obtain ⟨start, hstart, hmake⟩ := he
  cases h with
  | append address unit =>
    have hne : p.units ≠ [] := by
      rw [Ne, ← hp.start_eq_none_iff, hstart]
      exact Option.some_ne_none start
    obtain ⟨e', he'⟩ := exists_make_concat_eq_error hne hmake unit
    exact ⟨⟨e', start, by simp [Packer.append, hstart], he'⟩, rfl⟩
  | close hs hr =>
    rw [hstart, Option.some.injEq] at hs
    subst hs
    rw [hmake] at hr
    cases hr

/-- A pending record that is rejected stays so, and no record is closed after it. -/
theorem Leads.rejects (h : Leads p q) (hp : Sound limit p) {e : RecordFault} (he : p.Rejects e) :
    (∃ e', q.Rejects e') ∧ q.records = p.records := by
  induction h with
  | refl => exact ⟨⟨e, he⟩, rfl⟩
  | tail hleads hmove ih =>
    obtain ⟨⟨e', he'⟩, hrecords⟩ := ih
    obtain ⟨hrejects, hsame⟩ := hmove.rejects (Leads.sound hleads hp) he'
    exact ⟨hrejects, hsame.trans hrecords⟩

theorem Rejects.flush_refusal {e : RecordFault} (h : p.Rejects e) : p.flush.refusal = some e := by
  obtain ⟨start, hs, hmake⟩ := h
  simp [flush, hs, hmake, Step.refused]

end Rejection

section Units

def spaced (limit : Int) : Int → List String → List (Int × String)
  | _, [] => []
  | address, unit :: rest => (address, unit) :: spaced limit (address + limit) rest

/-- The units that a call gives to a packer, each with the address passed for it. -/
def Call.given (limit : Int) : Call → List (Int × String)
  | .add address unit => [(address, unit)]
  | .addBytes address payload =>
    spaced limit address ((chunks (2 * limit.toNat) payload.toList).map String.ofList)
  | .flush => []

/-- Whether units are what a call gives to a packer, each with its address: the unit that is added,
or a payload cut after every so many bytes as the limit says, two characters a byte, with addresses
one limit apart. -/
def Call.Gives (limit : Int) : Call → List (Int × String) → Prop
  | .add address unit, given => given = [(address, unit)]
  | .addBytes address payload, given =>
    String.join (given.map Prod.snd) = payload ∧
    (∀ x ∈ given.dropLast, (x.2.length : Int) = 2 * limit) ∧
    (∀ x ∈ given, x.2 ≠ "" ∧ (x.2.length : Int) ≤ 2 * limit) ∧
    ∀ (i : Nat) (x : Int × String), given[i]? = some x → x.1 = address + i * limit
  | .flush, given => given = []

theorem map_snd_spaced (limit : Int) (units : List String) :
    ∀ address : Int, (spaced limit address units).map Prod.snd = units := by
  induction units with
  | nil =>
    intro address
    rfl
  | cons unit units ih =>
    intro address
    rw [spaced, List.map_cons, ih]

theorem stepped_spaced (units : List String) :
    ∀ address : Int, Stepped Prod.fst limit address (spaced limit address units) := by
  induction units with
  | nil =>
    intro address
    trivial
  | cons unit units ih =>
    intro address
    exact ⟨rfl, ih _⟩

theorem fst_of_getElem?_spaced {units : List String} {i : Nat} {address : Int}
    {x : Int × String} (h : (spaced limit address units)[i]? = some x) :
    x.1 = address + i * limit := by
  induction units generalizing i address with
  | nil => cases h
  | cons unit units ih =>
    cases i with
    | zero =>
      obtain rfl := Option.some.inj h
      simp
    | succ i =>
      rw [spaced, List.getElem?_cons_succ] at h
      rw [ih h, Int.natCast_succ, Int.add_mul, Int.one_mul]
      omega

theorem Call.gives_given (h : 1 ≤ limit) (call : Call) : call.Gives limit (call.given limit) := by
  cases call with
  | add address unit => rfl
  | flush => rfl
  | addBytes address payload =>
    have hsize : 0 < 2 * limit.toNat := by omega
    have hunits : (given limit (.addBytes address payload)).map Prod.snd =
        (chunks (2 * limit.toNat) payload.toList).map String.ofList := map_snd_spaced ..
    refine ⟨?_, ?_, ?_, fun i x => fst_of_getElem?_spaced⟩
    · rw [hunits, ← String.toList_inj, String.toList_join, List.flatMap_map]
      simp only [String.toList_ofList]
      rw [List.flatMap_id', flatten_chunks hsize]
    · intro x hx
      have hmem := List.mem_map_of_mem (f := Prod.snd) hx
      rw [List.map_dropLast, hunits, ← List.map_dropLast] at hmem
      obtain ⟨chunk, hchunk, hx⟩ := List.mem_map.mp hmem
      rw [← hx, String.length_ofList, length_of_mem_dropLast_chunks hchunk]
      omega
    · intro x hx
      have hmem := List.mem_map_of_mem (f := Prod.snd) hx
      rw [hunits] at hmem
      obtain ⟨chunk, hchunk, hx⟩ := List.mem_map.mp hmem
      have hle := length_le_of_mem_chunks hchunk
      rw [← hx, String.length_ofList]
      refine ⟨?_, by omega⟩
      simpa using ne_nil_of_mem_chunks hchunk

end Units

end Packer

namespace Groups

variable {α : Type} {code : α → String} {limit : Int}

/-- A group that is still pending is not full. -/
theorem size_pending_push (h : 0 < limit) (g : Groups α) (x : α) :
    (size code (push code limit g x).pending : Int) < limit := by
  unfold push
  generalize (if limit < size code g.pending + unitSize (code x) then g.close else g) = room
  dsimp only
  split
  · rw [pending_close]
    exact h
  · rename_i hfull
    exact Int.not_le.mp hfull

theorem size_pending_pushes (h : 0 < limit) (xs : List α) :
    ∀ {g : Groups α}, (size code g.pending : Int) < limit →
      (size code (xs.foldl (push code limit) g).pending : Int) < limit := by
  induction xs with
  | nil =>
    intro g hg
    exact hg
  | cons x xs ih =>
    intro g _
    exact ih (size_pending_push h g x)

end Groups

namespace Packer

variable {limit : Int} {p : Packer} {g : Groups (Int × String)} {call : Call}

/-- A call that is not refused adds what it gives to the groups. -/
theorem perform_tracks (h : Tracks Prod.snd Prod.fst limit p g)
    (hr : (p.perform call).refusal = none) :
    ∃ g', Tracks Prod.snd Prod.fst limit (p.perform call).state g' ∧
      g'.all = g.all ++ call.given limit ∧
      (0 < limit → (Groups.size Prod.snd g.pending : Int) < limit →
        (Groups.size Prod.snd g'.pending : Int) < limit) := by
  cases call with
  | add address unit =>
    refine ⟨_, add_tracks (x := (address, unit)) h hr, Groups.all_push g _, ?_⟩
    intro hpos _
    exact Groups.size_pending_push hpos g _
  | flush =>
    refine ⟨g.close, flush_tracks h hr, by simp [Call.given], ?_⟩
    intro hpos _
    rw [Groups.pending_close]
    exact hpos
  | addBytes address payload =>
    have hlimit : limit ≠ 0 := by
      rintro rfl
      rw [perform, addBytes, if_pos h.limit_eq] at hr
      cases hr
    rw [perform, addBytes, h.limit_eq, if_neg hlimit] at hr ⊢
    -- The pieces of the payload are the units of the call, one limit apart.
    generalize hunits : (chunks (2 * limit.toNat) payload.toList).map String.ofList = units at hr ⊢
    rw [← map_snd_spaced limit units address] at hr ⊢
    refine ⟨_, addChunks_tracks h (stepped_spaced units address) hr, ?_, ?_⟩
    · rw [Groups.all_pushes, Call.given, hunits]
    · intro hpos hlt
      exact Groups.size_pending_pushes hpos _ hlt

/-- The records of a packer that never refused a call hold what the calls gave. -/
theorem run_tracks {calls : List Call} (h : (empty limit).grants calls = true) :
    ∃ g, Tracks Prod.snd Prod.fst limit ((empty limit).run calls) g ∧
      g.all = calls.flatMap (Call.given limit) ∧
      (0 < limit → (Groups.size Prod.snd g.pending : Int) < limit) := by
  induction calls using List.reverseRecOn with
  | nil => exact ⟨.empty, tracks_empty limit, rfl, id⟩
  | append_singleton calls call ih =>
    rw [grants_append, Bool.and_eq_true] at h
    obtain ⟨g, hg, hall, hlt⟩ := ih h.1
    have hr : (((empty limit).run calls).perform call).refusal = none := by
      simpa [grants] using h.2
    obtain ⟨g', hg', hall', hlt'⟩ := perform_tracks hg hr
    refine ⟨g', by simpa using hg', ?_, fun hpos => hlt' hpos (hlt hpos)⟩
    rw [hall', hall, List.flatMap_append, List.flatMap_singleton]

end Packer

open Packer

/-- Whatever is asked of a packer, and whether it was refused or not: its length is that of its
pending units, it has a start exactly if it has such units, and its records are only added to and can
be loaded. A call is refused for the record that it leaves pending, and from then on no record is
added and none can be closed; the one other reason is a limit of zero, which changes nothing. As long
as no call is refused and the limit is positive, the pending record is not full, and the records
followed by the pending one hold the units that were given, in order, each record from the address
passed with its first unit on. What a call gives is the unit that it adds, or all of its payload, cut
after every so many bytes as the limit says. -/
theorem packer_stays_sound_under_any_calls (limit : Int) (calls : List Call) :
    let p := (empty limit).run calls
    (p.length = unitsSize p.units ∧ (p.start = none ↔ p.units = [])) ∧
    (∀ more, p.records <+: (p.run more).records) ∧
    (∀ r ∈ p.records, r.units ≠ [] ∧ (∀ unit ∈ r.units, Text.isHexBytes unit = true) ∧
      r.length ≤ 30) ∧
    (∀ call e, (p.perform call).refusal = some e →
      ((p.perform call).state.Rejects e ∧ ∀ more,
        ((p.run [call]).run more).records = (p.run [call]).records ∧
        ((p.run [call]).run more).flush.refusal ≠ none) ∨
      e = .chunkSizeZero ∧ limit = 0 ∧ (p.perform call).state = p) ∧
    ((empty limit).grants calls = true → 1 ≤ limit → p.length < limit ∧
      ∃ (groups : List (List (Int × String))) (pending : List (Int × String)),
        groups.flatten ++ pending = calls.flatMap (Call.given limit) ∧
        (∀ call ∈ calls, call.Gives limit (call.given limit)) ∧
        p.records = groups.map (Groups.record Prod.snd Prod.fst) ∧
        p.units = pending.map Prod.snd ∧ p.start = pending.head?.map Prod.fst) := by
  dsimp only
  have hsound := sound_run limit calls
  generalize hp : (empty limit).run calls = p at hsound ⊢
  refine ⟨⟨hsound.length_eq, hsound.start_eq_none_iff⟩, ?_, ?_, ?_, ?_⟩
  · intro more
    exact (run_leads more p).records_grow
  · intro r hr
    exact TextRecord.fault?_eq_none.mp (hsound.made r hr)
  · intro call e he
    rcases perform_yields p call with hyields | ⟨hlimit, hrefused⟩
    · have hrejects := hyields.rejects e he
      refine .inl ⟨hrejects, ?_⟩
      intro more
      obtain ⟨⟨e', he'⟩, hrecords⟩ :=
        (run_leads more _).rejects (hyields.leads.sound hsound) hrejects
      refine ⟨hrecords, ?_⟩
      rw [run_singleton, he'.flush_refusal]
      exact Option.some_ne_none e'
    · rw [hrefused] at he ⊢
      cases he
      exact .inr ⟨rfl, hsound.limit_eq.symm.trans hlimit, rfl⟩
  · intro hgrants hpos
    obtain ⟨g, htracks, hall, hlt⟩ := run_tracks hgrants
    rw [hp] at htracks
    refine ⟨?_, g.finished, g.pending, hall, fun call _ => call.gives_given hpos, htracks.records,
      htracks.units, htracks.start⟩
    rw [htracks.length]
    exact hlt (by omega)

def cutPayloadCalls : List Call := [.add 0x10 "AA", .addBytes 0x11 "BBCCDDEEFF"]

/-- A unit that is no hexadecimal text is refused when it fills the record, and nothing is closed
after it. -/
theorem packer_after_refused_unit :
    (empty 2).grants cutPayloadCalls = true ∧
    (∃ (groups : List (List (Int × String))) (pending : List (Int × String)),
      groups.flatten ++ pending =
        [(0x10, "AA"), (0x11, "BBCC"), (0x13, "DDEE"), (0x15, "FF")] ∧
      (Call.addBytes 0x11 "BBCCDDEEFF").Gives 2 [(0x11, "BBCC"), (0x13, "DDEE"), (0x15, "FF")] ∧
      ((empty 2).run cutPayloadCalls).records = groups.map (Groups.record Prod.snd Prod.fst) ∧
      ((empty 2).run cutPayloadCalls).units = pending.map Prod.snd) ∧
    (((empty 2).run cutPayloadCalls).perform (.add 0x20 "XY")).refusal =
      some (.unitNotBytes "XY") ∧
    ∀ more,
      ((((empty 2).run cutPayloadCalls).run [.add 0x20 "XY"]).run more).records =
        [⟨0x10, ["AA"]⟩, ⟨0x11, ["BBCC"]⟩, ⟨0x13, ["DDEE"]⟩] ∧
      ((((empty 2).run cutPayloadCalls).run [.add 0x20 "XY"]).run more).flush.refusal ≠ none := by
  obtain ⟨-, -, -, hrefused, hgranted⟩ := packer_stays_sound_under_any_calls 2 cutPayloadCalls
  have hgrants : (empty 2).grants cutPayloadCalls = true := by decide +kernel
  have hgiven : cutPayloadCalls.flatMap (Call.given 2) =
      [(0x10, "AA"), (0x11, "BBCC"), (0x13, "DDEE"), (0x15, "FF")] := by decide +kernel
  have hrefusal : (((empty 2).run cutPayloadCalls).perform (.add 0x20 "XY")).refusal =
      some (.unitNotBytes "XY") := by decide +kernel
  have hrecords : (((empty 2).run cutPayloadCalls).run [.add 0x20 "XY"]).records =
      [⟨0x10, ["AA"]⟩, ⟨0x11, ["BBCC"]⟩, ⟨0x13, ["DDEE"]⟩] := by decide +kernel
  refine ⟨hgrants, ?_, hrefusal, ?_⟩
  · obtain ⟨-, groups, pending, hall, hgives, hmade, hunits, -⟩ := hgranted hgrants (by decide)
    have hpayload := hgives (.addBytes 0x11 "BBCCDDEEFF") (by decide)
    have hcut : (Call.addBytes 0x11 "BBCCDDEEFF").given 2 =
        [(0x11, "BBCC"), (0x13, "DDEE"), (0x15, "FF")] := by decide +kernel
    rw [hcut] at hpayload
    exact ⟨groups, pending, hall.trans hgiven, hpayload, hmade, hunits⟩
  · rcases hrefused _ _ hrefusal with ⟨-, hstays⟩ | ⟨hzero, -⟩
    · intro more
      obtain ⟨hsame, hflush⟩ := hstays more
      exact ⟨hsame.trans hrecords, hflush⟩
    · cases hzero

end SicAssembler
