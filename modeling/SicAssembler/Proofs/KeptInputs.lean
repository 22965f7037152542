import SicAssembler.Proofs.Decoding
import SicAssembler.Proofs.FailedRuns
import SicAssembler.Proofs.OpcodeLoading
import SicAssembler.Proofs.Places

/-!
# Kept inputs

A run of the command writes nowhere but where its outputs lead. So it keeps an input that none of
the given outputs leads to, nor the path of the object program if none is given for it. If that path
leads to an input, a run that succeeds does not leave it as it was, since an object program can be
read neither as a source nor as opcodes: its first line has four fields.
-/

namespace SicAssembler

/-- Whether a line has the four fields of a header. -/
def IsHeaderLine (line : String) : Prop :=
  ∃ name start length, Text.fields line = ["H^", name, start, length]

theorem Record.isHeaderLine_render {name : String} {start length : Int}
    (h : (header name start length).Legible) :
    IsHeaderLine (header name start length).render := by
  have hparts : ∀ part ∈ (header name start length).parts, part ≠ [] ∧ Text.Solid part := by
    intro part hpart
    refine ⟨?_, h.solid part hpart⟩
    rintro rfl
    have hlength : (Text.hexField 6 length).toList ≠ [] := by
      simpa using Text.hexField_ne_empty 6 length
    simp [parts, hlength.symm] at hpart
  have hfields : Text.fields (header name start length).render =
      (header name start length).parts.map String.ofList := by
    rw [Text.fields, toList_render, Text.runs_intercalate rfl hparts]
  exact ⟨_, _, _, hfields⟩

theorem Layout.ofLines_of_isHeaderLine {line : String} (h : IsHeaderLine line)
    (table : OpcodeTable) (policy : Policy) (filename : String) (rest : List String) :
    ∃ e, (ofLines table policy filename (line :: rest)).result = .error e := by
  obtain ⟨name, start, length, hfields⟩ := h
  have hcomment : SourceLine.isComment line = false := by
    rw [SourceLine.isComment_eq, hfields]
    rfl
  have hparse : ∃ e, SourceLine.parse line ((1 : Nat) : Int) filename = .error e := by
    cases hparse : SourceLine.parse line ((1 : Nat) : Int) filename with
    | error e => exact ⟨e, rfl⟩
    | ok l =>
      have hthree := (SourceLine.parse_eq_ok.mp hparse).1
      rw [hfields] at hthree
      simp at hthree
  obtain ⟨e, he⟩ := hparse
  refine ⟨e, ?_⟩
  rw [ofLines, SourceLine.statements, SourceLine.statementsFrom, hcomment, he]
  rfl

theorem OpcodeTable.load_of_isHeaderLine {line : String} (h : IsHeaderLine line)
    (filename : String) (rest : List String) :
    ∃ e, (load filename (line :: rest)).result = .error e := by
  obtain ⟨name, start, length, hfields⟩ := h
  have hmalformed : OpcodeEntry.Malformed line := by
    by_contra hnot
    rcases OpcodeEntry.cases_of_not_malformed hnot with hnil | ⟨mnemonic, code, htwo, -⟩
    · rw [hfields] at hnil
      cases hnil
    · rw [hfields] at htwo
      simp at htwo
  obtain ⟨e, hload, -⟩ := load_of_malformed (List.forall_mem_nil _) hmalformed filename rest
  rw [List.nil_append] at hload
  exact ⟨e, congrArg Logged.result hload⟩

theorem Assembly.exists_headerLine {policy : Policy} {opcodes : OpcodeSource} {filename : String}
    {lines : List String} {a : Assembly}
    (h : (ofLines policy opcodes filename lines).result = .ok a) :
    ∃ line rest, a.objectCode = line :: rest ∧ IsHeaderLine line := by
  obtain ⟨table, hload, -⟩ := Logged.result_bind_eq_ok.mp h
  rw [Logged.result_mapError_eq_ok] at hload
  have hrecords := (packed_of_ofLines hload h).records_eq
  have hlegible := (legible_of_ofLines h).records
  rw [hrecords, List.forall_mem_cons] at hlegible
  have hcode := congrArg (List.map Record.render) hrecords
  rw [List.map_cons] at hcode
  exact ⟨_, _, hcode, Record.isHeaderLine_render hlegible.1⟩

namespace Arguments

def inputs (a : Arguments) : List String := a.input :: a.optab.toList

def givenOutputs (a : Arguments) : List String :=
  a.output.toList ++ a.listing.toList ++ a.symbols.toList

end Arguments

namespace Command

variable {reader : Reader} {host : Host} {d : Disk} {args : List String} {a : Arguments}
  {assembly : Assembly} {p : Place}

theorem Assembles.exists_run (h : Assembles reader host d args a assembly) :
    ∃ policy table lines, (Assembly.fileOpcodes d a.optab).result = .ok table ∧
      d.lines a.input = .ok lines ∧
      (Assembly.ofLines policy (.ready table) a.input lines).result = .ok assembly := by
  obtain ⟨policy, -, hfile⟩ := Logged.result_bind_eq_ok.mp h.assembled
  obtain ⟨table, htable, hrest⟩ := Logged.result_bind_eq_ok.mp hfile
  obtain ⟨lines, hlines, hrun⟩ := Logged.result_bind_eq_ok.mp hrest
  rw [Logged.result_mapError_eq_ok] at hlines
  exact ⟨_, table, lines, htable, hlines, hrun⟩

/-- What a run that assembles reads is not the object program that it makes. -/
theorem Assembles.exists_lines (h : Assembles reader host d args a assembly) {input : String}
    (hinput : input ∈ a.inputs) :
    ∃ lines, d.lines input = .ok lines ∧ lines ≠ assembly.objectCode := by
  obtain ⟨policy, table, source, htable, hsource, hrun⟩ := h.exists_run
  obtain ⟨line, rest, hcode, hheader⟩ := Assembly.exists_headerLine hrun
  rw [hcode]
  -- Neither the source nor the opcodes would have been read, had they begun with a header.
  rcases List.mem_cons.mp hinput with rfl | hoptab
  · refine ⟨source, hsource, ?_⟩
    rintro rfl
    obtain ⟨e, he⟩ := Layout.ofLines_of_isHeaderLine hheader table policy a.input rest
    have hlayout := (Assembly.ofLines_eq_ok rfl hrun).1
    rw [he] at hlayout
    cases hlayout
  · rw [Option.mem_toList] at hoptab
    rw [hoptab] at htable
    obtain ⟨lines, hlines, hload⟩ := Logged.result_bind_eq_ok.mp htable
    rw [Logged.result_mapError_eq_ok] at hlines hload
    refine ⟨lines, hlines, ?_⟩
    rintro rfl
    obtain ⟨e, he⟩ := OpcodeTable.load_of_isHeaderLine hheader input rest
    rw [he] at hload
    cases hload

theorem Assembles.node?_ne_object (h : Assembles reader host d args a assembly) {input : String}
    (hinput : input ∈ a.inputs) (hp : d.LeadsTo input p) :
    d.node? p ≠ some (.file (assembly.artifactBytes .object)) := by
  obtain ⟨lines, hlines, hne⟩ := h.exists_lines hinput
  obtain ⟨bytes, hnode, hread⟩ := hp.exists_file hlines
  rw [hnode]
  rintro ⟨⟩
  obtain ⟨policy, table, source, -, -, hrun⟩ := h.exists_run
  have hends := (Assembly.legible_of_ofLines hrun).isLineEnd .object
  rw [Disk.lines_of_read hread, Text.lines_unlines hends] at hlines
  exact hne (Except.ok.inj hlines).symm

theorem mem_outputs {output : Assembly.Artifact × String} (h : output ∈ outputs a) :
    output.2 ∈ a.givenOutputs ∨
      a.output = none ∧ output = (.object, Path.withSuffix ".obj" a.input) := by
  simp only [outputs, Arguments.objectPath, List.mem_cons, List.mem_append, List.mem_map,
    Option.mem_toList] at h
  simp only [Arguments.givenOutputs, List.mem_append, Option.mem_toList]
  cases houtput : a.output <;> grind

/-- A place that no given output leads to is changed only if the path of the object program is not
given and leads there. -/
theorem derived_of_changed (hready : reader d args = .ready a)
    (hgiven : ∀ output ∈ a.givenOutputs, ¬d.LeadsTo output p)
    (h : (runWith reader host d args).disk.node? p ≠ d.node? p) :
    a.output = none ∧ d.LeadsTo (Path.withSuffix ".obj" a.input) p := by
  obtain ⟨b, assembly, n, hrun, hlast, -⟩ := exists_saved_of_changed h
  obtain rfl := Reading.ready.inj (hready.symm.trans hrun.ready)
  obtain ⟨output, houtput, hpath, -⟩ := Host.mem_saved (Disk.mem_of_lookup_reverse hlast)
  have hleads := Disk.leadsTo_of_writable hpath
  rcases mem_outputs houtput with hmem | ⟨hnone, rfl⟩
  · exact absurd hleads (hgiven output.2 hmem)
  · exact ⟨hnone, hleads⟩

theorem exists_assembles (hready : reader d args = .ready a)
    (h : (runWith reader host d args).exitCode = 0) :
    ∃ assembly, Assembles reader host d args a assembly := by
  rw [runWith, hready] at h
  dsimp only at h
  rw [execute] at h
  split at h
  case h_1 => exact absurd h (exitCode_failed_ne_zero _ _ _ _ _)
  case h_2 hopened =>
    dsimp only at h
    split at h
    case h_1 => exact absurd h (exitCode_failed_ne_zero _ _ _ _ _)
    case h_2 assembly hassembled => exact ⟨assembly, hready, hopened, hassembled⟩

theorem Assembles.node?_run_eq_object (h : Assembles reader host d args a assembly)
    (hexit : (runWith reader host d args).exitCode = 0)
    (hgiven : ∀ output ∈ a.givenOutputs, ¬d.LeadsTo output p) (hnone : a.output = none)
    (hderived : d.LeadsTo (Path.withSuffix ".obj" a.input) p) :
    (runWith reader host d args).disk.node? p =
      some (.file (assembly.artifactBytes .object)) := by
  have hsaves := (h.run_eq.2.mp hexit).1
  have hobject : a.objectPath = Path.withSuffix ".obj" a.input := by
    rw [Arguments.objectPath, hnone, Option.getD_none]
  have hfirst : (p, .file (assembly.artifactBytes .object)) ∈
      host.saved assembly d (outputs a) := by
    obtain ⟨hwhole, q, hq⟩ := hsaves (.object, a.objectPath) List.mem_cons_self
    have hplace := Disk.leadsTo_of_writable hq
    rw [hobject] at hplace
    obtain rfl := hplace.eq hderived
    rw [outputs, Host.saved, Host.left_of_saves hwhole hq]
    exact List.mem_append_left _ (List.mem_singleton_self _)
  rw [h.node?_run]
  cases hlast : (host.saved assembly d (outputs a)).reverse.lookup p with
  | none =>
    rw [List.lookup_eq_none_iff] at hlast
    have hother := hlast _ (List.mem_reverse.mpr hfirst)
    simp at hother
  | some n =>
    -- What stands there was put there last, and the outputs after the object program lead elsewhere.
    obtain ⟨output, houtput, hpath, bytes, rfl, -, hwhole⟩ :=
      Host.mem_saved (Disk.mem_of_lookup_reverse hlast)
    rw [hwhole (hsaves output houtput), Option.some_or]
    rcases mem_outputs houtput with hmem | ⟨-, rfl⟩
    · exact absurd (Disk.leadsTo_of_writable hpath) (hgiven output.2 hmem)
    · rfl

end Command

/-- However a command line is read and whatever the system refuses, a run of the command:
1. leaves the disk as it is, if the command is not started;
2. keeps an input that no given output leads to, nor the path of the source with its suffix replaced
   if no path is given for the object program. If that path does lead to the input, a run that
   succeeds replaces it.

On a disk without links, that path leads to the source exactly if the name of the source has the
suffix of object programs already, after something else. -/
theorem run_keeps_inputs (reader : Reader) (host : Host) (d : Disk) (args : List String) :
    ((∀ a, reader d args ≠ .ready a) → (Command.runWith reader host d args).disk = d) ∧
    ∀ a, reader d args = .ready a →
      (∀ input ∈ a.inputs, ∀ p, d.LeadsTo input p →
        (∀ output ∈ a.givenOutputs, ¬d.LeadsTo output p) →
          (¬(a.output = none ∧ d.LeadsTo (Path.withSuffix ".obj" a.input) p) →
            (Command.runWith reader host d args).disk.node? p = d.node? p) ∧
          (a.output = none ∧ d.LeadsTo (Path.withSuffix ".obj" a.input) p →
            (Command.runWith reader host d args).exitCode = 0 →
              (Command.runWith reader host d args).disk.node? p ≠ d.node? p)) ∧
      (d.links = [] → ∀ s bytes, d.LeadsTo a.input s → d.node? s = some (.file bytes) →
        (Path.names a.input).getLast? ≠ some ".." →
          (d.LeadsTo (Path.withSuffix ".obj" a.input) s ↔
            ∃ stem, stem ≠ "" ∧ s.names.getLast? = some (stem ++ ".obj"))) := by
  constructor
  · intro hnone
    apply Command.disk_run_of_not_assembles
    rintro ⟨a, assembly, hrun⟩
    exact hnone a hrun.ready
  · intro a hready
    constructor
    · intro input hinput p hp hgiven
      constructor
      · intro hnot
        by_contra hchanged
        exact hnot (Command.derived_of_changed hready hgiven hchanged)
      · rintro ⟨hnone, hderived⟩ hexit
        obtain ⟨assembly, hrun⟩ := Command.exists_assembles hready hexit
        rw [hrun.node?_run_eq_object hexit hgiven hnone hderived]
        exact (hrun.node?_ne_object hinput hp).symm
    · intro hlinks s bytes hs hfile hup
      exact hs.withSuffix_iff hlinks (by simp [hfile]) hup

def copyOpcodes : String := "LDA 00\nADD 18\n"

/-- A source whose whole name is the suffix of object programs, beside opcodes with that suffix, to
which a link leads. -/
def dottedDisk : Disk :=
  { (Disk.empty.addFile ".obj" (Text.encode copySource)).addFile "copy.obj"
      (Text.encode copyOpcodes) with
    links := [(⟨["work", "ops"]⟩, ⟨["work", "copy.obj"]⟩)] }

def dottedLine : List String := [".obj", "-t", "./ops", "-l", "/work/copy.lst"]

def dottedArguments : Arguments :=
  { input := ".obj", optab := some "ops", listing := some "/work/copy.lst" }

/-- A name that is nothing but the suffix gets it once more, so the source is kept. -/
theorem dotted_source_is_kept :
    Arguments.reader dottedDisk dottedLine = .ready dottedArguments ∧
    dottedDisk.LeadsTo "ops" ⟨["work", "copy.obj"]⟩ ∧
    (Command.runWith Arguments.reader {} dottedDisk dottedLine).disk.node? ⟨["work", ".obj"]⟩ =
      dottedDisk.node? ⟨["work", ".obj"]⟩ ∧
    (Command.runWith Arguments.reader {} dottedDisk dottedLine).disk.node?
      ⟨["work", "copy.obj"]⟩ = dottedDisk.node? ⟨["work", "copy.obj"]⟩ ∧
    (Command.runWith Arguments.reader {} dottedDisk dottedLine).exitCode = 0 ∧
    (Command.runWith Arguments.reader {} dottedDisk dottedLine).disk.node?
      ⟨["work", ".obj.obj"]⟩ = some (.file (Text.encode copyObject)) := by
  have hready : Arguments.reader dottedDisk dottedLine = .ready dottedArguments := by
    decide +kernel
  have hkept := ((run_keeps_inputs _ {} dottedDisk dottedLine).2 dottedArguments hready).1
  refine ⟨hready, by decide +kernel, ?_, ?_, by decide +kernel⟩
  · refine (hkept ".obj" (by decide +kernel) _ (by decide +kernel) (by decide +kernel)).1 ?_
    rintro ⟨-, hderived⟩
    exact absurd hderived (by decide +kernel)
  · refine (hkept "ops" (by decide +kernel) _ (by decide +kernel) (by decide +kernel)).1 ?_
    rintro ⟨-, hderived⟩
    exact absurd hderived (by decide +kernel)

def suffixedDisk : Disk := Disk.empty.addFile "copy.obj" (Text.encode copySource)

def neighbourDisk : Disk := copyDisk.addFile "copy.obj" (Text.encode copyOpcodes)

/-- Runs without given outputs replace the source, and the opcodes, that the path of the object
program leads to. -/
theorem object_program_replaces_inputs :
    (Arguments.reader suffixedDisk ["copy.obj"] = .ready { input := "copy.obj" } ∧
      suffixedDisk.LeadsTo "copy.obj" copyPlace ∧
      suffixedDisk.node? copyPlace = some (.file (Text.encode copySource)) ∧
      (Command.runWith Arguments.reader {} suffixedDisk ["copy.obj"]).disk.node? copyPlace =
        some (.file (Text.encode copyObject))) ∧
    Arguments.reader neighbourDisk ["copy.asm", "-t", "/work/copy.obj"] =
        .ready { input := "copy.asm", optab := some "/work/copy.obj" } ∧
      neighbourDisk.LeadsTo "/work/copy.obj" copyPlace ∧
      neighbourDisk.node? copyPlace = some (.file (Text.encode copyOpcodes)) ∧
      (Command.runWith Arguments.reader {} neighbourDisk
        ["copy.asm", "-t", "/work/copy.obj"]).disk.node? copyPlace =
          some (.file (Text.encode copyObject)) := by
  decide +kernel

end SicAssembler
