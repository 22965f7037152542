import SicAssembler.Text.Blank

/-!
# Paths

A path is a text with components between slashes. Its plain form has no empty components and none
that is a single dot.
-/

namespace SicAssembler.Path

/-- The components of a path, the empty ones included. -/
def components (path : String) : List String := (Text.cutAt '/' path.toList).map String.ofList

def names (path : String) : List String :=
  (components path).filter fun name => name != "" && name != "."

/-- What stands before the components of a path that does not start at the working directory: one
slash, or two if there are exactly two. -/
def root (path : String) : String :=
  match path.toList with
  | '/' :: '/' :: '/' :: _ => "/"
  | '/' :: '/' :: _ => "//"
  | '/' :: _ => "/"
  | _ => ""

def plain (path : String) : String :=
  let text := root path ++ String.intercalate "/" (names path)
  if text = "" then "." else text

/-- The characters before the last full stop, if some stand before it and some after it. -/
def stem? (cs : List Char) : Option (List Char) :=
  let tail := cs.reverse.takeWhile (· != '.')
  let before := cs.take (cs.length - tail.length - 1)
  if tail.length < cs.length ∧ tail ≠ [] ∧ before ≠ [] then some before else none

def renamed (suffix name : String) : String :=
  match stem? name.toList with
  | some stem => String.ofList stem ++ suffix
  | none => name ++ suffix

def withSuffix (suffix path : String) : String :=
  let all := names path
  root path ++ String.intercalate "/" (all.dropLast ++ (all.getLast?.toList.map (renamed suffix)))

end SicAssembler.Path
