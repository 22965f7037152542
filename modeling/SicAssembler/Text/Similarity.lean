/-!
# Close matches

Two texts are alike in proportion to what they share: the longest block common to both, and then
the same again to its left and to its right. Of the candidates that share at least three fifths,
the closest are chosen.
-/

namespace SicAssembler.Text

structure Block where
  left : Nat
  right : Nat
  size : Nat
  deriving DecidableEq, Repr

/-- The lengths of the common blocks that end with `c` at each place of `b`, from those that end
one place earlier. A character that is skipped ends no block. -/
def blockLengths (skip : Char → Bool) (c : Char) (b : List Char) (before : List Nat) : List Nat :=
  List.zipWith (fun d k => if c = d && !skip d then k + 1 else 0) b (0 :: before)

/-- The better of the best block so far and the blocks that end at place `i`, from place `j` on.
Of equally long blocks the earlier stays. -/
def bestBlock (i : Nat) : Nat → List Nat → Block → Block
  | _, [], best => best
  | j, k :: ks, best =>
    bestBlock i (j + 1) ks (if best.size < k then ⟨i + 1 - k, j + 1 - k, k⟩ else best)

def searchBlock (skip : Char → Bool) (b : List Char) :
    Nat → List Char → List Nat → Block → Block
  | _, [], _, best => best
  | i, c :: cs, before, best =>
    let row := blockLengths skip c b before
    searchBlock skip b (i + 1) cs row (bestBlock i 0 row best)

def commonHead : List Char → List Char → Nat
  | a :: as, b :: bs => if a = b then commonHead as bs + 1 else 0
  | _, _ => 0

/-- Extends a block to both sides while the characters agree, the skipped ones included. -/
def Block.extend (a b : List Char) (m : Block) : Block :=
  let back := commonHead (a.take m.left).reverse (b.take m.right).reverse
  let forth := commonHead (a.drop (m.left + m.size)) (b.drop (m.right + m.size))
  ⟨m.left - back, m.right - back, m.size + back + forth⟩

def longestBlock (skip : Char → Bool) (a b : List Char) : Block :=
  (searchBlock skip b 0 a (b.map fun _ => 0) ⟨0, 0, 0⟩).extend a b

/-- How many characters two lists share. A block lies inside `a`, so the parts beside it are
shorter than `a`. -/
def sharedSize (skip : Char → Bool) (a b : List Char) : Nat :=
  match longestBlock skip a b with
  | ⟨i, j, k⟩ =>
    if _h : 0 < k ∧ i + k ≤ a.length then
      k + sharedSize skip (a.take i) (b.take j) +
        sharedSize skip (a.drop (i + k)) (b.drop (j + k))
    else 0
termination_by a.length
decreasing_by
  · simp only [List.length_take]; omega
  · simp only [List.length_drop]; omega

/-- In a text of two hundred characters or more, those that make up more than a hundredth of it
start no block. -/
def isPopular (b : List Char) (c : Char) : Bool :=
  200 ≤ b.length && b.length / 100 + 1 < b.count c

structure Match where
  text : String
  shared : Nat
  total : Nat
  deriving DecidableEq, Repr

/-- Compares a candidate with a name. Two empty texts count as wholly alike. -/
def Match.of (name candidate : String) : Match :=
  let a := candidate.toList
  let b := name.toList
  if a.length + b.length = 0 then ⟨candidate, 1, 2⟩
  else ⟨candidate, sharedSize (isPopular b) a b, a.length + b.length⟩

def Match.isClose (m : Match) : Bool := 3 * m.total ≤ 10 * m.shared

def Match.before (m n : Match) : Bool :=
  if m.shared * n.total = n.shared * m.total then decide (n.text ≤ m.text)
  else n.shared * m.total < m.shared * n.total

def closeMatches (name : String) (candidates : List String) (limit : Nat) : List String :=
  ((((candidates.map (Match.of name)).filter Match.isClose).mergeSort Match.before).take limit).map
    Match.text

structure LimitFault where
  limit : Int
  deriving DecidableEq, Repr

def LimitFault.text (f : LimitFault) : String := s!"n must be > 0: {f.limit}"

def closest (name : String) (candidates : List String) (limit : Int) :
    Except LimitFault (List String) :=
  if 0 < limit then .ok (closeMatches name candidates limit.toNat) else .error ⟨limit⟩

end SicAssembler.Text
