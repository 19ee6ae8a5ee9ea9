/-!
# Similar words

Which of some words a misspelt one may have meant.  Two words are as similar as the share
of their characters that lies in common blocks: the longest common block, then the longest
to its left and to its right, and so on.
-/

namespace Backfield.CommandLine.Similarity

/-- The length of the common front of two words. -/
def commonFront : List Char → List Char → Nat
  | a :: as, b :: bs => if a == b then commonFront as bs + 1 else 0
  | _, _ => 0

/-- A common block: where it starts in either word, and its length. -/
structure Block where
  left : Nat := 0
  right : Nat := 0
  length : Nat := 0
  deriving DecidableEq, Repr

/-- The longest common block; of several the one that starts first in the left word, then
in the right one. -/
def longestBlock (a b : List Char) : Block :=
  (List.range a.length).foldl (fun best i =>
    (List.range b.length).foldl (fun best j =>
      let length := commonFront (a.drop i) (b.drop j)
      if best.length < length then ⟨i, j, length⟩ else best) best) {}

/-- The number of characters in common blocks, for a left word shorter than `fuel`. -/
def matching : (fuel : Nat) → List Char → List Char → Nat
  | 0, _, _ => 0
  | fuel + 1, a, b =>
    let block := longestBlock a b
    if block.length == 0 then 0
    else
      matching fuel (a.take block.left) (b.take block.right) + block.length +
        matching fuel (a.drop (block.left + block.length)) (b.drop (block.right + block.length))

/-- A word with its likeness to another, a fraction. -/
structure Candidate where
  word : String
  share : Nat
  whole : Nat

def candidate (word given : String) : Candidate :=
  let a := word.toList
  let b := given.toList
  ⟨word, 2 * matching (a.length + 1) a b, a.length + b.length⟩

/-- At least three fifths alike. -/
def Candidate.isClose (c : Candidate) : Bool := c.whole * 3 ≤ c.share * 5

/-- The first is the closer one, or as close and not before the second. -/
def Candidate.ge (c d : Candidate) : Bool :=
  let left := c.share * d.whole
  let right := d.share * c.whole
  right < left || (left == right && decide (d.word ≤ c.word))

/-- At most three of the words, those that are closest to the given one. -/
def closest (words : List String) (given : String) : List String :=
  (((words.map (candidate · given)).filter (·.isClose)).mergeSort Candidate.ge).take 3
    |>.map (·.word)

end Backfield.CommandLine.Similarity
