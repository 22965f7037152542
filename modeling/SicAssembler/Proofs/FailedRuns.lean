import SicAssembler.Command.Run
import SicAssembler.Proofs.Saving

/-!
# Failed runs

A run of the command writes its outputs one after another and stops at the first that is not written
whole. Writing files leaves the ways on the disk as they are, so what each path leads to is settled
before the run. A failed run thus changes nothing, unless its program assembles and an output, or
what is shown of the run, fails after another output was written or was itself begun.
-/

namespace SicAssembler

namespace Disk

variable {d d' : Disk} {p q r : Place} {path : String}

def putAll (d : Disk) (files : List (Place × Node)) : Disk :=
  files.foldl (fun d file => d.put file.1 file.2) d

/-- A place holds what was put there last, if anything, and else what it held. -/
theorem node?_putAll {files : List (Place × Node)} (h : ∀ file ∈ files, file.1.names ≠ [])
    (d : Disk) : (d.putAll files).node? p = (files.reverse.lookup p).or (d.node? p) := by
  induction files generalizing d with
  | nil => rfl
  | cons file files ih =>
    rw [List.forall_mem_cons] at h
    have hput : (d.put file.1 file.2).node? p = ([file].lookup p).or (d.node? p) := by
      by_cases hp : p = file.1
      · rw [hp, node?_put_self h.1, List.lookup_cons_self, Option.some_or]
      · rw [node?_put_of_ne hp, List.lookup_cons, beq_false_of_ne hp]
        rfl
    calc ((d.put file.1 file.2).putAll files).node? p
      _ = (files.reverse.lookup p).or (([file].lookup p).or (d.node? p)) := by rw [ih h.2, hput]
      _ = ((file :: files).reverse.lookup p).or (d.node? p) := by
        rw [List.reverse_cons, List.lookup_append, Option.or_assoc]

theorem mem_of_lookup_reverse {files : List (Place × Node)} {n : Node}
    (h : files.reverse.lookup p = some n) : (p, n) ∈ files := by
  obtain ⟨_, _, hsplit, -⟩ := List.lookup_eq_some_iff.mp h
  rw [← List.mem_reverse, hsplit]
  exact List.mem_append_right _ List.mem_cons_self

theorem putAll_append (d : Disk) (files more : List (Place × Node)) :
    d.putAll (files ++ more) = (d.putAll files).putAll more :=
  List.foldl_append

/-- Whether two disks differ in nothing but files, so that paths lead to the same places. -/
structure SameWays (d d' : Disk) : Prop where
  working : d'.working = d.working
  links : d'.links = d.links
  directories : ∀ p, d'.node? p = some .directory ↔ d.node? p = some .directory

theorem sameWays_refl (d : Disk) : SameWays d d := ⟨rfl, rfl, fun _ => Iff.rfl⟩

theorem sameWays_put (h : d.node? p ≠ some .directory) (bytes : List UInt8) :
    SameWays d (d.put p (.file bytes)) where
  working := rfl
  links := rfl
  directories := by
    intro q
    by_cases hq : q = p
    · rw [hq, node?_put_self (names_ne_nil_of_node? h)]
      simp [h]
    · rw [node?_put_of_ne hq]

theorem SameWays.walk_eq_ok (h : SameWays d d') {components : List String} :
    d'.walk q components = .ok r ↔ d.walk q components = .ok r := by
  induction components generalizing q with
  | nil => rfl
  | cons name rest ih =>
    have hnext : d'.next q name = d.next q name := by rw [next, next, h.links]
    rw [walk_cons_eq_ok, walk_cons_eq_ok, h.directories q, hnext, ih]

theorem SameWays.writable_eq_ok (h : SameWays d d') :
    d'.writable path = .ok p ↔ d.writable path = .ok p := by
  have horigin : d'.origin path = d.origin path := by rw [origin, origin, h.working]
  rw [writable_eq_ok_iff, writable_eq_ok_iff, LeadsTo, LeadsTo, follow_eq_ok, follow_eq_ok, horigin,
    h.walk_eq_ok, h.directories p.parent, ne_eq, ne_eq, ne_eq, h.directories p]

end Disk

namespace Host

variable {host : Host} {assembly : Assembly} {d d' : Disk} {p : Place} {n : Node}
  {output : Assembly.Artifact × String} {outputs : List (Assembly.Artifact × String)}

def Saves (host : Host) (d : Disk) (output : Assembly.Artifact × String) : Prop :=
  host.ending output.1 = .whole ∧ ∃ p, d.writable output.2 = .ok p

instance (host : Host) (d : Disk) (output : Assembly.Artifact × String) :
    Decidable (host.Saves d output) :=
  match h : d.writable output.2 with
  | .ok p => decidable_of_iff (host.ending output.1 = .whole) ⟨fun he => ⟨he, p, h⟩, And.left⟩
  | .error e => isFalse fun ⟨_, p, hp⟩ => by
    rw [h] at hp
    cases hp

/-- What the write of an output leaves in its file, if the file was opened: the artifact, or the
beginning of it. -/
def left (host : Host) (assembly : Assembly) (d : Disk) (output : Assembly.Artifact × String) :
    List (Place × Node) :=
  match d.writable output.2, host.ending output.1 with
  | .ok p, .whole => [(p, .file (assembly.artifactBytes output.1))]
  | .ok p, .brokenOff after _ => [(p, .file ((assembly.artifactBytes output.1).take after))]
  | _, _ => []

/-- What outputs leave in their files, up to the first that is not written whole. -/
def saved (host : Host) (assembly : Assembly) (d : Disk) :
    List (Assembly.Artifact × String) → List (Place × Node)
  | [] => []
  | output :: rest =>
    host.left assembly d output ++ if host.Saves d output then host.saved assembly d rest else []

theorem mem_left (h : (p, n) ∈ host.left assembly d output) :
    d.writable output.2 = .ok p ∧
      ∃ bytes, n = .file bytes ∧ bytes <+: assembly.artifactBytes output.1 ∧
        (host.Saves d output → bytes = assembly.artifactBytes output.1) := by
  unfold left at h
  split at h
  · rename_i q hq _
    cases List.mem_singleton.mp h
    exact ⟨hq, _, rfl, List.prefix_rfl, fun _ => rfl⟩
  · rename_i q after _ hq hbroken
    cases List.mem_singleton.mp h
    refine ⟨hq, _, rfl, List.take_prefix after _, ?_⟩
    rintro ⟨hwhole, -⟩
    rw [hbroken] at hwhole
    cases hwhole
  · cases h

theorem left_of_saves (h : host.ending output.1 = .whole) (hp : d.writable output.2 = .ok p) :
    host.left assembly d output = [(p, .file (assembly.artifactBytes output.1))] := by
  simp only [left, h, hp]

theorem state_save (host : Host) (assembly : Assembly) (d : Disk)
    (output : Assembly.Artifact × String) :
    (host.save assembly d output.1 output.2).state = d.putAll (host.left assembly d output) := by
  unfold save left
  cases hending : host.ending output.1 <;> cases hpath : d.writable output.2 <;>
    simp [Assembly.write, Disk.writeLines, Disk.write, hpath, Step.refused, Step.mapRefusal,
      Disk.putAll, Assembly.artifactBytes]

theorem refusal_save_eq_none :
    (host.save assembly d output.1 output.2).refusal = none ↔ host.Saves d output := by
  unfold save Saves
  cases hending : host.ending output.1 <;> cases hpath : d.writable output.2 <;>
    simp [Assembly.write, Disk.writeLines, Disk.write, hpath, Step.refused, Step.mapRefusal]

theorem sameWays_left (host : Host) (assembly : Assembly) (d : Disk)
    (output : Assembly.Artifact × String) :
    d.SameWays (d.putAll (host.left assembly d output)) := by
  unfold left
  split
  · rename_i p hp _
    exact Disk.sameWays_put (Disk.not_directory_of_writable hp) _
  · rename_i p after _ hp _
    exact Disk.sameWays_put (Disk.not_directory_of_writable hp) _
  · exact Disk.sameWays_refl d

theorem saves_of_sameWays (h : d.SameWays d') : host.Saves d' output ↔ host.Saves d output := by
  simp only [Saves, h.writable_eq_ok]

theorem left_of_sameWays (h : d.SameWays d') :
    host.left assembly d' output = host.left assembly d output := by
  cases hpath : d.writable output.2 with
  | ok p =>
    have hpath' := h.writable_eq_ok.mpr hpath
    simp only [left, hpath, hpath']
  | error e =>
    cases hpath' : d'.writable output.2 with
    | ok p =>
      rw [h.writable_eq_ok.mp hpath'] at hpath
      cases hpath
    | error e' => simp only [left, hpath, hpath']

theorem saved_of_sameWays (h : d.SameWays d') (outputs : List (Assembly.Artifact × String)) :
    host.saved assembly d' outputs = host.saved assembly d outputs := by
  induction outputs with
  | nil => rfl
  | cons output rest ih =>
    simp only [saved, left_of_sameWays h, saves_of_sameWays h, ih]

theorem mem_saved (h : (p, n) ∈ host.saved assembly d outputs) :
    ∃ output ∈ outputs, d.writable output.2 = .ok p ∧
      ∃ bytes, n = .file bytes ∧ bytes <+: assembly.artifactBytes output.1 ∧
        (host.Saves d output → bytes = assembly.artifactBytes output.1) := by
  induction outputs with
  | nil => cases h
  | cons output rest ih =>
    rw [saved, List.mem_append] at h
    rcases h with h | h
    · exact ⟨output, List.mem_cons_self, mem_left h⟩
    · split at h
      · obtain ⟨other, hmem, hfacts⟩ := ih h
        exact ⟨other, List.mem_cons_of_mem output hmem, hfacts⟩
      · cases h

theorem saveAll_cons (host : Host) (assembly : Assembly) (d : Disk)
    (output : Assembly.Artifact × String) (rest : List (Assembly.Artifact × String)) :
    host.saveAll assembly d (output :: rest) =
      (host.save assembly d output.1 output.2).andThen fun d => host.saveAll assembly d rest :=
  rfl

/-- Writing outputs leaves what they have put into their files, up to the first that is refused. -/
theorem state_saveAll (host : Host) (assembly : Assembly)
    (outputs : List (Assembly.Artifact × String)) (d : Disk) :
    (host.saveAll assembly d outputs).state = d.putAll (host.saved assembly d outputs) := by
  induction outputs generalizing d with
  | nil => rfl
  | cons output rest ih =>
    rw [saveAll_cons, saved]
    by_cases hsaves : host.Saves d output
    · -- The rest meets another disk, on which the same paths can be written.
      rw [Step.state_andThen (refusal_save_eq_none.mpr hsaves), ih, state_save,
        saved_of_sameWays (host.sameWays_left assembly d output), if_pos hsaves,
        Disk.putAll_append]
    · rw [Step.andThen_of_refused (mt refusal_save_eq_none.mp hsaves), state_save, if_neg hsaves,
        List.append_nil]

theorem refusal_saveAll_eq_none (host : Host) (assembly : Assembly)
    (outputs : List (Assembly.Artifact × String)) (d : Disk) :
    (host.saveAll assembly d outputs).refusal = none ↔
      ∀ output ∈ outputs, host.Saves d output := by
  induction outputs generalizing d with
  | nil => exact iff_of_true rfl (List.forall_mem_nil _)
  | cons output rest ih =>
    have hways : d.SameWays (host.save assembly d output.1 output.2).state := by
      rw [state_save]
      exact host.sameWays_left assembly d output
    rw [saveAll_cons, Step.refusal_andThen_eq_none, List.forall_mem_cons, refusal_save_eq_none, ih]
    simp only [saves_of_sameWays hways]

end Host

namespace Command

variable {reader : Reader} {host : Host} {d : Disk} {args : List String} {a : Arguments}
  {assembly : Assembly} {p : Place}

/-- A run that is started and whose program assembles, so that it gets to write. -/
structure Assembles (reader : Reader) (host : Host) (d : Disk) (args : List String) (a : Arguments)
    (assembly : Assembly) : Prop where
  ready : reader d args = .ready a
  opened : host.muted? (opening a) = none
  assembled : (assemble host.environment d a).result = .ok assembly

theorem exitCode_failed_ne_zero (a : Arguments) (d : Disk) (lines : List String)
    (log : List Notice) (f : Failure) : (failed a d lines log f).exitCode ≠ 0 := by
  change f.kind.exitCode ≠ 0
  cases f.kind with
  | assembly => decide
  | usage => decide
  | internal => decide

/-- A run that gets to write leaves what its outputs have put into their files. It succeeds exactly
if they are all written whole and what it shows is taken. -/
theorem Assembles.run_eq (h : Assembles reader host d args a assembly) :
    (runWith reader host d args).disk = d.putAll (host.saved assembly d (outputs a)) ∧
      ((runWith reader host d args).exitCode = 0 ↔
        (∀ output ∈ outputs a, host.Saves d output) ∧
          host.muted? (opening a ++ closing a assembly) = none) := by
  have hrun : runWith reader host d args = execute host d a := by
    rw [runWith, h.ready]
  rw [hrun, execute, ← host.state_saveAll, ← host.refusal_saveAll_eq_none assembly]
  simp only [h.opened, h.assembled]
  cases hrefusal : (host.saveAll assembly d (outputs a)).refusal with
  | some f =>
    refine ⟨rfl, iff_of_false (exitCode_failed_ne_zero _ _ _ _ _) ?_⟩
    rintro ⟨⟨⟩, -⟩
  | none =>
    cases hmuted : host.muted? (opening a ++ closing a assembly) with
    | some f =>
      refine ⟨rfl, iff_of_false (exitCode_failed_ne_zero _ _ _ _ _) ?_⟩
      rintro ⟨-, ⟨⟩⟩
    | none => exact ⟨rfl, iff_of_true rfl ⟨rfl, rfl⟩⟩

theorem disk_run_of_not_assembles (h : ¬∃ a assembly, Assembles reader host d args a assembly) :
    (runWith reader host d args).disk = d := by
  rw [runWith]
  split
  case h_1 => rfl
  case h_2 a hready =>
    rw [execute]
    split
    case h_1 => rfl
    case h_2 hopened =>
      dsimp only
      split
      case h_1 => rfl
      case h_2 assembly hassembled => exact absurd ⟨a, assembly, hready, hopened, hassembled⟩ h

theorem Assembles.node?_run (h : Assembles reader host d args a assembly) (p : Place) :
    (runWith reader host d args).disk.node? p =
      ((host.saved assembly d (outputs a)).reverse.lookup p).or (d.node? p) := by
  rw [h.run_eq.1]
  apply Disk.node?_putAll
  rintro ⟨q, n⟩ hfile
  obtain ⟨_, -, hq, -⟩ := Host.mem_saved hfile
  exact Disk.names_ne_nil_of_node? (Disk.not_directory_of_writable hq)

/-- A run that changes a place put there what the place holds then. -/
theorem exists_saved_of_changed (h : (runWith reader host d args).disk.node? p ≠ d.node? p) :
    ∃ a assembly n, Assembles reader host d args a assembly ∧
      (host.saved assembly d (outputs a)).reverse.lookup p = some n ∧
      (runWith reader host d args).disk.node? p = some n := by
  by_cases hassembles : ∃ a assembly, Assembles reader host d args a assembly
  · obtain ⟨a, assembly, hrun⟩ := hassembles
    have hnode := hrun.node?_run p
    cases hlast : (host.saved assembly d (outputs a)).reverse.lookup p with
    | none =>
      rw [hlast, Option.none_or] at hnode
      exact absurd hnode h
    | some n =>
      rw [hlast, Option.some_or] at hnode
      exact ⟨a, assembly, n, hrun, hlast, hnode⟩
  · rw [disk_run_of_not_assembles hassembles] at h
    exact absurd rfl h

end Command

/-- However a command line is read and whatever the system refuses, a failed run of the command:
1. leaves every place as it was exactly if each place holds already what the run put there last, with
   its outputs up to the first that was not written whole;
2. has assembled its program, if it changed a place. The place then holds an artifact or the
   beginning of one, and an output was not written whole, or what the run shows was not taken. -/
theorem failed_run_keeps_disk_iff (reader : Reader) (host : Host) (d : Disk) (args : List String)
    (h : (Command.runWith reader host d args).exitCode ≠ 0) :
    ((∀ p, (Command.runWith reader host d args).disk.node? p = d.node? p) ↔
      ∀ a assembly, Command.Assembles reader host d args a assembly →
        ∀ p n, (host.saved assembly d (Command.outputs a)).reverse.lookup p = some n →
          d.node? p = some n) ∧
    ∀ p, (Command.runWith reader host d args).disk.node? p ≠ d.node? p →
      ∃ a assembly, Command.Assembles reader host d args a assembly ∧
        (∃ output ∈ Command.outputs a, d.writable output.2 = .ok p ∧
          ∃ bytes, bytes <+: assembly.artifactBytes output.1 ∧
            (Command.runWith reader host d args).disk.node? p = some (.file bytes)) ∧
        ((∃ output ∈ Command.outputs a, ¬host.Saves d output) ∨
          host.muted? (Command.opening a ++ Command.closing a assembly) ≠ none) := by
  refine ⟨⟨?_, ?_⟩, ?_⟩
  · intro hkept a assembly hrun p n hlast
    rw [← hkept p, hrun.node?_run, hlast, Option.some_or]
  · intro hsaved p
    by_contra hchanged
    obtain ⟨a, assembly, n, hrun, hlast, hnode⟩ := Command.exists_saved_of_changed hchanged
    exact hchanged (hnode.trans (hsaved a assembly hrun p n hlast).symm)
  · intro p hchanged
    obtain ⟨a, assembly, n, hrun, hlast, hnode⟩ := Command.exists_saved_of_changed hchanged
    obtain ⟨output, houtput, hpath, bytes, rfl, hbytes, -⟩ :=
      Host.mem_saved (Disk.mem_of_lookup_reverse hlast)
    refine ⟨a, assembly, hrun, ⟨output, houtput, hpath, bytes, hbytes, hnode⟩, ?_⟩
    by_contra hnone
    rw [not_or, not_exists] at hnone
    apply h
    rw [hrun.run_eq.2]
    refine ⟨?_, not_not.mp hnone.2⟩
    intro other hother
    by_contra hnot
    exact hnone.1 other ⟨hother, hnot⟩

def copySource : String :=
  "COPY START 1000\n- LDA FIVE\n- ADD FIVE\nFIVE WORD 5\n- END COPY\n"

def copyObject : String :=
  "H^ COPY^ 001000^ 000009\nT^ 001000^ 001006^ 181006^ 000005^ \nE^ 001000\n"

def copyDisk : Disk := Disk.empty.addFile "copy.asm" (Text.encode copySource)

def copiedDisk : Disk := copyDisk.addFile "copy.obj" (Text.encode copyObject)

def copyPlace : Place := ⟨["work", "copy.obj"]⟩

/-- A command line whose listing goes to a directory that is not there. -/
def listingAstray : List String := ["copy.asm", "-l", "no/x.lst"]

def listingAstrayRead : Arguments := { input := "copy.asm", listing := some "no/x.lst" }

def mutedHost : Host where
  stdout := some (0, "[Errno 28] No space left on device")

/-- A run that is refused the listing changes nothing where the object program stands already. -/
theorem refused_listing_keeps_object_program :
    (Command.runWith Arguments.reader {} copiedDisk listingAstray).exitCode ≠ 0 ∧
    ∀ p, (Command.runWith Arguments.reader {} copiedDisk listingAstray).disk.node? p =
      copiedDisk.node? p := by
  have hfailed : (Command.runWith Arguments.reader {} copiedDisk listingAstray).exitCode ≠ 0 := by
    decide +kernel
  refine ⟨hfailed, (failed_run_keeps_disk_iff _ {} copiedDisk listingAstray hfailed).1.mpr ?_⟩
  rintro a assembly ⟨hready, -, hassembled⟩ p n hlast
  have hread : Arguments.reader copiedDisk listingAstray = .ready listingAstrayRead := by
    decide +kernel
  obtain rfl := Reading.ready.inj (hready.symm.trans hread)
  have hfiles : ((Command.assemble {} copiedDisk listingAstrayRead).result.toOption.map fun x =>
      ({} : Host).saved x copiedDisk (Command.outputs listingAstrayRead)) =
      some [(copyPlace, .file (Text.encode copyObject))] := by
    decide +kernel
  have hsaved : ({} : Host).saved assembly copiedDisk (Command.outputs listingAstrayRead) =
      [(copyPlace, .file (Text.encode copyObject))] := by
    rw [hassembled] at hfiles
    exact Option.some.inj hfiles
  have hmem := Disk.mem_of_lookup_reverse hlast
  rw [hsaved, List.mem_singleton] at hmem
  cases hmem
  decide +kernel

/-- A run that is refused the listing, and one that cannot show its result, leave the object program
behind where none stood. -/
theorem refused_listing_leaves_object_program :
    copyDisk.node? copyPlace = none ∧
    (Command.runWith Arguments.reader {} copyDisk listingAstray).exitCode = 2 ∧
    (Command.runWith Arguments.reader {} copyDisk listingAstray).disk.node? copyPlace =
      some (.file (Text.encode copyObject)) ∧
    (Command.runWith Arguments.reader mutedHost copyDisk ["copy.asm", "--print"]).exitCode = 3 ∧
    (Command.runWith Arguments.reader mutedHost copyDisk
      ["copy.asm", "--print"]).disk.node? copyPlace = some (.file (Text.encode copyObject)) := by
  decide +kernel

end SicAssembler
