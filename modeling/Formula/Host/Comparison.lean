import Formula.Host.Heap

set_option autoImplicit false

/-! # Comparing values of the host

A row finds a value among its items, and two rows are put in order, by asking which items are the
same one or equal. Lists with an identity are looked up in the heap only when the identities differ,
so a list that holds itself is found without an end to look for. Two such lists can keep each other
busy forever; `comparisonDepth` bounds how deep rows are compared. -/

namespace Formula

/-- Rows nested deeper than this are not compared. -/
def comparisonDepth : Nat := 900

/-- The error of comparing rows that are nested too deeply. -/
def tooDeepToCompare : Fault :=
  .raised "RecursionError" "maximum recursion depth exceeded in comparison"

/-! ## Sameness -/

/-- Whether two rows hold the same or equal items in the same places; the first pair that differs
ends the search. -/
def sameItems (same : Value → Value → Except Fault Bool) :
    List Value → List Value → Except Fault Bool
  | [], [] => .ok true
  | a :: as, b :: bs => do if ← same a b then sameItems same as bs else return false
  | _, _ => .ok false

namespace Heap

/-- Whether two values are the same one or equal, rows being nested as deep as the first argument
says. Lists of different lengths are not looked into. -/
def sameWithin (h : Heap) : Nat → Value → Value → Except Fault Bool
  | 0, _, _ => .error tooDeepToCompare
  | depth + 1, a, b =>
    match a, b with
    | .shared m, .shared n =>
      if m = n then .ok true else rows depth (h.items m) (h.items n)
    | .shared m, .list bs => rows depth (h.items m) bs
    | .list as, .shared n => rows depth as (h.items n)
    | .list as, .list bs => rows depth as bs
    | .tuple as, .tuple bs => sameItems (h.sameWithin depth) as bs
    | a, b => .ok (a.same b)
where
  /-- Whether two lists hold the same or equal items. -/
  rows (depth : Nat) (as bs : List Value) : Except Fault Bool :=
    if as.length = bs.length then sameItems (h.sameWithin depth) as bs else .ok false

/-- Whether a row that holds the one value finds it when the other is sought. -/
def same (h : Heap) (a b : Value) : Except Fault Bool := h.sameWithin comparisonDepth a b

/-- How many of some items are the same as a value or equal to it. -/
def countSame (h : Heap) (v : Value) : List Value → Except Fault Nat
  | [] => .ok 0
  | item :: items => do
    let found ← h.same item v
    let more ← h.countSame v items
    return if found then more + 1 else more

/-- The position of the first item that is the same as a value or equal to it, counted from
`position`. -/
def indexFrom (h : Heap) (v : Value) (position : Nat) : List Value → Except Fault (Option Nat)
  | [] => .ok none
  | item :: items => do
    if ← h.same item v then return some position else h.indexFrom v (position + 1) items

/-! ## Order -/

/-- The first items in the same place of two rows that differ. -/
def firstDifference (h : Heap) : List Value → List Value → Except Fault (Option (Value × Value))
  | a :: as, b :: bs => do
    if ← h.same a b then h.firstDifference as bs else return some (a, b)
  | _, _ => .ok none

/-- Whether a value comes after another one, or else before it, rows being nested as deep as the
second argument says. Numbers and texts have an order, and so have rows of such values: the first
items that differ decide, and a longer row comes after its own beginning. -/
def isBeyondWithin (h : Heap) (upward : Bool) : Nat → Value → Value → Except Fault Bool
  | 0, _, _ => .error tooDeepToCompare
  | depth + 1, a, b =>
    match h.unshare a, h.unshare b with
    | .str s, .str t => .ok (if upward then t < s else s < t)
    | .list as, .list bs | .tuple as, .tuple bs => do
      match ← h.firstDifference as bs with
      | some (x, y) => h.isBeyondWithin upward depth x y
      | none => return if upward then bs.length < as.length else as.length < bs.length
    | a, b =>
      match a.numeric?, b.numeric? with
      | some x, some y => .ok (if upward then y.less x else x.less y)
      | _, _ =>
        .error (.raised "TypeError" ("'" ++ (if upward then ">" else "<") ++
          "' not supported between instances of '" ++ a.typeName ++ "' and '" ++ b.typeName ++
          "'"))

/-- Whether a value comes after another one, or else before it. -/
def isBeyond (h : Heap) (upward : Bool) (a b : Value) : Except Fault Bool :=
  h.isBeyondWithin upward comparisonDepth a b

end Heap

end Formula
