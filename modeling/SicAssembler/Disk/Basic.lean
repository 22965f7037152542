import SicAssembler.Disk.Path
import SicAssembler.Text.Quoted

/-!
# Files and directories

What a run sees of the disk: files with their bytes, directories, and links. A path is followed
component by component, from the root or from the working directory; a component can only be looked
up in a directory that is there. A link, whether it is a second name of a file or points to another
name, is given by the place that it leads to in the end. So two paths name one file exactly if they
lead to one place. Paths and their components are limited in length.
-/

namespace SicAssembler

/-- A place on the disk, by the names that lead down to it from the root. -/
structure Place where
  names : List String
  deriving DecidableEq, Repr

namespace Place

def root : Place := ⟨[]⟩

def parent (p : Place) : Place := ⟨p.names.dropLast⟩

def child (p : Place) (name : String) : Place :=
  if name = "" ∨ name = "." then p
  else if name = ".." then p.parent
  else ⟨p.names ++ [name]⟩

def text (p : Place) : String := "/" ++ String.intercalate "/" p.names

end Place

inductive Node where
  | file (bytes : List UInt8)
  | directory
  deriving DecidableEq, Repr

inductive DiskProblem where
  | missing
  | isDirectory
  | notDirectory
  | nameTooLong
  deriving DecidableEq, Repr

namespace DiskProblem

def number : DiskProblem → Nat
  | missing => 2
  | isDirectory => 21
  | notDirectory => 20
  | nameTooLong => 36

def text : DiskProblem → String
  | missing => "No such file or directory"
  | isDirectory => "Is a directory"
  | notDirectory => "Not a directory"
  | nameTooLong => "File name too long"

end DiskProblem

structure DiskFault where
  problem : DiskProblem
  path : String
  deriving DecidableEq, Repr

def DiskFault.text (f : DiskFault) : String :=
  s!"[Errno {f.problem.number}] {f.problem.text}: {Text.quoted f.path}"

inductive ReadProblem where
  | path (problem : DiskProblem)
  | denied
  deriving DecidableEq, Repr

def ReadProblem.text : ReadProblem → String
  | path problem => problem.text
  | denied => "Permission denied"

/-- The working directory, the files and directories that are known, the links with the places that
they lead to, and the files that may not be read. -/
structure Disk where
  working : Place
  nodes : List (Place × Node)
  links : List (Place × Place) := []
  unreadable : List Place := []
  deriving DecidableEq, Repr

namespace Disk

def empty : Disk where
  working := ⟨["work"]⟩
  nodes := [(⟨["work"]⟩, .directory)]

def node? (d : Disk) (p : Place) : Option Node :=
  if p.names = [] then some .directory else d.nodes.lookup p

def putNode (p : Place) (n : Node) : List (Place × Node) → List (Place × Node)
  | [] => [(p, n)]
  | (q, m) :: rest => if q = p then (q, n) :: rest else (q, m) :: putNode p n rest

def put (d : Disk) (p : Place) (n : Node) : Disk := { d with nodes := putNode p n d.nodes }

def origin (d : Disk) (path : String) : Place :=
  if Path.root path = "" then d.working else Place.root

/-- The places that the components of a path lead through on a disk without links. -/
def trail (p : Place) : List String → List Place
  | [] => []
  | name :: rest => p.child name :: trail (p.child name) rest

def addDirectory (d : Disk) (path : String) : Disk :=
  (trail (d.origin path) (Path.components path)).foldl (fun d p => d.put p .directory) d

/-- Adds a file and the directories that it lies in. -/
def addFile (d : Disk) (path : String) (bytes : List UInt8) : Disk :=
  let through := trail (d.origin path) (Path.components path).dropLast
  let place := (Path.components path).foldl Place.child (d.origin path)
  (through.foldl (fun d p => d.put p .directory) d).put place (.file bytes)

def nameLimit : Nat := 255

def pathLimit : Nat := 4095

/-- Where a component leads from a directory. -/
def next (d : Disk) (p : Place) (name : String) : Place :=
  let q := p.child name
  -- Only a name can be that of a link; the other components lead to directories.
  if name = "" ∨ name = "." ∨ name = ".." then q else (d.links.lookup q).getD q

def walk (d : Disk) (p : Place) : List String → Except DiskProblem Place
  | [] => .ok p
  | name :: rest =>
    match d.node? p with
    | some .directory =>
      if nameLimit < name.utf8ByteSize then .error .nameTooLong else d.walk (d.next p name) rest
    | some (.file _) => .error .notDirectory
    | none => .error .missing

def follow (d : Disk) (path : String) (components : List String) : Except DiskProblem Place :=
  if path = "" then .error .missing
  else if pathLimit < path.utf8ByteSize then .error .nameTooLong
  else d.walk (d.origin path) components

/-- What stands where a path leads, and the place. -/
def stat (d : Disk) (path : String) : Except DiskProblem (Place × Node) :=
  match d.follow path (Path.components path) with
  | .error e => .error e
  | .ok p =>
    match d.node? p with
    | some node => .ok (p, node)
    | none => .error .missing

def read (d : Disk) (path : String) : Except ReadProblem (List UInt8) :=
  match d.stat path with
  | .error e => .error (.path e)
  | .ok (p, node) =>
    if p ∈ d.unreadable then .error .denied
    else match node with
      | .directory => .error (.path .isDirectory)
      | .file bytes => .ok bytes

/-- The components of a path without the empty ones at its end. -/
def solidComponents (path : String) : List String :=
  ((Path.components path).reverse.dropWhile (· = "")).reverse

/-- The place where a path may be written. A path that ends in a slash names a directory, and a link
may lead to a place in a directory that is not there. -/
def writable (d : Disk) (path : String) : Except DiskProblem Place :=
  match d.follow path (solidComponents path) with
  | .error e => .error e
  | .ok p =>
    if (Path.components path).getLast? = some "" ∨ d.node? p = some .directory then
      .error .isDirectory
    else if d.node? p.parent = some .directory then .ok p
    else .error .missing

def write (d : Disk) (path : String) (bytes : List UInt8) : Except DiskFault Disk :=
  match d.writable path with
  | .ok p => .ok (d.put p (.file bytes))
  | .error e => .error ⟨e, path⟩

/-- The files that are new or have other bytes than before. -/
def changes (before after : Disk) : List (Place × List UInt8) :=
  after.nodes.filterMap fun (p, n) =>
    match n with
    | .file bytes => if before.node? p = some (.file bytes) then none else some (p, bytes)
    | .directory => none

def changesBelow (before after : Disk) : List (String × List UInt8) :=
  (changes before after).filterMap fun (p, bytes) =>
    if before.working.names <+: p.names then
      some (String.intercalate "/" (p.names.drop before.working.names.length), bytes)
    else none

end Disk

end SicAssembler
