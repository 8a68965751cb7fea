set_option autoImplicit false

/-! # Similar words

How alike two words are: twice the number of characters in common blocks over all characters. The
first block is a longest common run of characters, and further blocks are sought on both sides of
it. -/

namespace Formula.Similarity

/-- The length of the longest common beginning. -/
def commonRun : List Char → List Char → Nat
  | a :: as, b :: bs => if a = b then commonRun as bs + 1 else 0
  | _, _ => 0

/-- A common run: where it begins in either word, and its length. -/
structure Run where
  left : Nat
  right : Nat
  size : Nat

/-- The earliest of the longest common runs. -/
def longestRun (as bs : List Char) : Run :=
  (List.range as.length).foldl (fun best i =>
    (List.range bs.length).foldl (fun best j =>
      let size := commonRun (as.drop i) (bs.drop j)
      if best.size < size then ⟨i, j, size⟩ else best) best) ⟨0, 0, 0⟩

/-- The number of characters in common blocks, as many blocks deep as the first argument says. -/
def commonWithin : Nat → List Char → List Char → Nat
  | 0, _, _ => 0
  | depth + 1, as, bs =>
    let run := longestRun as bs
    if run.size = 0 then 0
    else
      commonWithin depth (as.take run.left) (bs.take run.right) + run.size +
        commonWithin depth (as.drop (run.left + run.size)) (bs.drop (run.right + run.size))

/-- Whether at least six tenths of all characters are in common blocks. -/
def isSimilar (a b : String) : Bool :=
  let common := commonWithin (a.length + 1) a.toList b.toList
  3 * (a.length + b.length) ≤ 10 * common

end Formula.Similarity
