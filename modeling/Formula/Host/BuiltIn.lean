import Formula.Host.Comparison
import Formula.Text.Blank
import Formula.Text.Case
import Formula.Text.Digit
import Formula.Value.Arithmetic

set_option autoImplicit false

/-! # Members of the built-in types

The properties of numbers and the methods of texts, numbers and rows. The methods of texts work on
frozen arguments; the methods of rows compare values by the heap, and the one that changes a list
works on its identity. -/

namespace Formula

namespace BuiltIn

open Number (Binary64)

/-! ## Properties -/

/-- A property of an integer. -/
def integerProperty? (n : Int) (name : String) : Option Value :=
  if name = "real" ∨ name = "numerator" then some (.int n)
  else if name = "imag" then some (.int 0)
  else if name = "denominator" then some (.int 1)
  else none

/-- A property of a floating-point value. -/
def floatProperty? (v : Value) (name : String) : Option Value :=
  if name = "real" then some v
  else if name = "imag" then some (.float (.zero false))
  else none

/-- A property of a built-in value; a truth value has those of the integer it counts as. -/
def property? (v : Value) (name : String) : Option Value :=
  match v with
  | .bool b => integerProperty? (if b then 1 else 0) name
  | .int n => integerProperty? n name
  | .float _ | .nan _ => floatProperty? v name
  | _ => none

/-- The properties of a built-in type. -/
def propertyNames : ValueType → List String
  | .int | .bool => ["real", "imag", "numerator", "denominator"]
  | .float => ["real", "imag"]
  | _ => []

/-! ## Searching texts -/

/-- The position of the first occurrence of a text, counted from `position`. -/
def findFrom (pattern : List Char) (position : Nat) : List Char → Option Nat
  | [] => if pattern.isEmpty then some position else none
  | c :: cs =>
    if pattern.isPrefixOf (c :: cs) then some position else findFrom pattern (position + 1) cs

/-- The number of occurrences of a non-empty text that do not overlap; `skip` characters belong to
the last one found. -/
def countFrom (pattern : List Char) : Nat → List Char → Nat
  | _, [] => 0
  | skip + 1, _ :: cs => countFrom pattern skip cs
  | 0, c :: cs =>
    if pattern.isPrefixOf (c :: cs) then countFrom pattern (pattern.length - 1) cs + 1
    else countFrom pattern 0 cs

/-- The number of occurrences of a text that do not overlap; the empty text occurs around every
character. -/
def countIn (pattern cs : List Char) : Nat :=
  if pattern.isEmpty then cs.length + 1 else countFrom pattern 0 cs

/-- Replaces the first `limit` occurrences of a non-empty text, or all of them; `skip` characters
belong to the last one replaced. -/
def replaceFrom (pattern new : List Char) : Option Nat → Nat → List Char → List Char
  | _, _, [] => []
  | limit, skip + 1, _ :: cs => replaceFrom pattern new limit skip cs
  | limit, 0, c :: cs =>
    if limit ≠ some 0 ∧ pattern.isPrefixOf (c :: cs) then
      new ++ replaceFrom pattern new (limit.map (· - 1)) (pattern.length - 1) cs
    else c :: replaceFrom pattern new limit 0 cs

/-- Puts a text before each of the first `limit` characters and at the end, or everywhere. -/
def interleave (new : List Char) : Option Nat → List Char → List Char
  | some 0, cs => cs
  | _, [] => new
  | limit, c :: cs => new ++ c :: interleave new (limit.map (· - 1)) cs

/-- Replaces occurrences of a text. -/
def replaceIn (pattern new : List Char) (limit : Option Nat) (cs : List Char) : List Char :=
  if pattern.isEmpty then interleave new limit cs else replaceFrom pattern new limit 0 cs

/-- A bound of a range: negative ones count from the end, and all are kept within the length. -/
def clampBound (length : Nat) (n : Int) : Nat :=
  if n < 0 then (n + length).toNat else min n.toNat length

/-- The integer that a value denotes; a truth value denotes zero or one. -/
def integer? (v : Value) : Option Int :=
  match v.numeric? with
  | some (.int n) => some n
  | _ => none

/-- A bound of a range, or the given one if there is none. Where a bound may be left out, the absent
value leaves it out. -/
def boundOf (mayLeaveOut : Bool) (otherwise : Int) : Option Value → Except Fault Int
  | none => .ok otherwise
  | some v =>
    match integer? v with
    | some n => .ok n
    | none =>
      if mayLeaveOut && v.isNone then .ok otherwise
      else .error (.raised "TypeError" ("slice indices must be integers or " ++
        (if mayLeaveOut then "None or " else "") ++ "have an __index__ method"))

/-- The range of positions that up to two bounds select, if it does not begin behind the end; it may
be empty the wrong way round. -/
def bounds (mayLeaveOut : Bool) (length : Nat) (range : List Value) :
    Except Fault (Option (Nat × Nat)) := do
  let low ← boundOf mayLeaveOut 0 range[0]?
  let high ← boundOf mayLeaveOut length range[1]?
  return if low > length then none else some (clampBound length low, clampBound length high)

/-! ## Methods of texts -/

/-- Whether the selected part of a text, if there is one, begins, or ends, with another text. -/
def hasAffix (atEnd : Bool) (part : Option (List Char)) (affix : String) : Bool :=
  match part with
  | none => false
  | some cs => if atEnd then affix.toList.isSuffixOf cs else affix.toList.isPrefixOf cs

/-- The name of the method that tests for a prefix or a suffix. -/
def affixName (atEnd : Bool) : String := if atEnd then "endswith" else "startswith"

/-- Whether a text has one of some affixes; the first that is no text ends the search. -/
def hasAnyAffix (atEnd : Bool) (part : Option (List Char)) : List Value → Except Fault Bool
  | [] => .ok false
  | .str s :: rest => if hasAffix atEnd part s then .ok true else hasAnyAffix atEnd part rest
  | v :: _ =>
    .error (.raised "TypeError"
      ("tuple for " ++ affixName atEnd ++ " must only contain str, not " ++ v.typeName))

/-- Whether a text begins, or ends, with the given text or with one of a row of texts. -/
def testAffix (atEnd : Bool) (part : Option (List Char)) : Value → Except Fault Bool
  | .str s => .ok (hasAffix atEnd part s)
  | .tuple items => hasAnyAffix atEnd part items
  | v => .error (.affixType (affixName atEnd) v.typeName)

/-- The error of an argument that is not a text. -/
def textExpected (method : String) (position : Nat) (v : Value) : Fault :=
  .raised "TypeError" (method ++ "() argument " ++ toString position ++ " must be str, not " ++
    if v.isNone then v.display else v.typeName)

/-- The error of an argument that is not an integer. -/
def integerExpected (v : Value) : Fault :=
  .raised "TypeError" ("'" ++ v.typeName ++ "' object cannot be interpreted as an integer")

/-- The error of arguments that do not fit a method. -/
def misfit (method : String) : Fault :=
  .raised "TypeError" (method ++ "() got unsuitable arguments")

/-- The part of a text that two optional bounds select, with its position; nothing is selected when
the first bound lies behind the end or behind the second. -/
def selectPart (s : String) (range : List Value) : Except Fault (Option (Nat × List Char)) := do
  let cs := s.toList
  match ← bounds true cs.length range with
  | none => return none
  | some (first, last) =>
    return if last < first then none else some (first, (cs.take last).drop first)

/-- The methods that search a part of a text. -/
def searchMethod (s : String) (method : String) : List Value → Except Fault Value
  | [] => .error (.raised "TypeError" (method ++ "() takes at least 1 argument (0 given)"))
  | v :: range => do
    if 2 < range.length then
      throw (.raised "TypeError" (method ++ "() takes at most 3 arguments (" ++
        toString (range.length + 1) ++ " given)"))
    let part ← selectPart s range
    match method, v with
    | "startswith", affix => (testAffix false (part.map Prod.snd) affix).map .bool
    | "endswith", affix => (testAffix true (part.map Prod.snd) affix).map .bool
    | "count", .str pattern =>
      return .int ((part.map fun (_, cs) => countIn pattern.toList cs).getD 0)
    | "find", .str pattern =>
      match part.bind fun (first, cs) => findFrom pattern.toList first cs with
      | some n => return .int n
      | none => return .int (-1)
    | _, v => throw (.raised "TypeError" ("must be str, not " ++ v.typeName))

/-- The methods of texts. -/
def textMethod (s : String) (method : String) (arguments : List Value) : Except Fault Value :=
  match method, arguments with
  | "upper", [] => .ok (.str (Text.upper s))
  | "lower", [] => .ok (.str (Text.lower s))
  | "isdigit", [] => .ok (.bool (!s.isEmpty && s.toList.all Text.isDigitChar))
  | "strip", [] | "strip", [.none] => .ok (.str (Text.trim s))
  | "strip", [.str chars] =>
    let inner := s.toList.dropWhile (chars.toList.contains ·)
    .ok (.str (String.ofList (inner.reverse.dropWhile (chars.toList.contains ·)).reverse))
  | "strip", [_] => .error (.raised "TypeError" "strip arg must be None or str")
  | "replace", .str old :: .str new :: rest =>
    let run limit := .ok (.str (String.ofList (replaceIn old.toList new.toList limit s.toList)))
    match rest, rest.map integer? with
    | [], _ => run none
    | _, [some n] => run (if n < 0 then none else some n.toNat)
    | [v], _ => .error (integerExpected v)
    | _, _ => .error (misfit "replace")
  | "replace", .str _ :: v :: _ => .error (textExpected "replace" 2 v)
  | "replace", v :: _ => .error (textExpected "replace" 1 v)
  | "startswith", _ | "endswith", _ | "count", _ | "find", _ => searchMethod s method arguments
  | _, _ => .error (misfit method)

/-! ## Methods of rows -/

/-- The methods of rows that only look at the items. -/
def rowMethod (heap : Heap) (items : List Value) (method : String) (arguments : List Value) :
    Except Fault Value :=
  match method, arguments with
  | "count", [v] => do return .int (← heap.countSame v items)
  | "index", v :: range => do
    let missing : Fault := .raised "ValueError" ((heap.freeze v).display ++ " is not in list")
    match ← bounds false items.length range with
    | none => throw missing
    | some (first, last) =>
      match ← heap.indexFrom v first ((items.take last).drop first) with
      | some n => return .int n
      | none => throw missing
  | _, _ => .error (misfit method)

/-! ## All methods -/

/-- The number of binary digits of the size of an integer. -/
def bitLength (n : Int) : Nat := if n = 0 then 0 else n.natAbs.log2 + 1

/-- Calls a method of a built-in type. -/
def call (receiver : Value) (method : String) (arguments : List Value) : HostAction Value := do
  let heap ← get
  match receiver, method, arguments with
  | .shared id, "append", [v] => do
    let v ← HostAction.hold v
    modify fun heap => heap.append id v
    return .none
  | .str s, _, _ => liftExcept (textMethod s method (arguments.map heap.freeze))
  | .int n, "bit_length", [] => return .int (bitLength n)
  | .bool b, "bit_length", [] => return .int (if b then 1 else 0)
  | .float x, "is_integer", [] => return .bool x.isWhole
  | .nan _, "is_integer", [] => return .bool false
  | .tuple items, "count", _ => liftExcept (rowMethod heap items method arguments)
  | .list _, "append", [_] => return .none
  | .list items, _, _ => liftExcept (rowMethod heap items method arguments)
  | .shared id, _, _ => liftExcept (rowMethod heap (heap.items id) method arguments)
  | v, _, _ => throw (.noAttribute v.typeName method)
where
  /-- A result that does not depend on the heap. -/
  liftExcept {α : Type} : Except Fault α → HostAction α
    | .ok a => pure a
    | .error e => throw e

/-- The methods of a built-in type, each with the number of parameters and of those required, or
without them when its signature cannot be read. -/
def methodShapes : ValueType → List (String × Option (Nat × Nat))
  | .str =>
    [("upper", some (0, 0)), ("lower", some (0, 0)), ("isdigit", some (0, 0)),
      ("strip", some (1, 0)), ("replace", some (3, 2)), ("startswith", none), ("endswith", none),
      ("count", none), ("find", none)]
  | .int | .bool => [("bit_length", some (0, 0))]
  | .float => [("is_integer", some (0, 0))]
  | .list => [("append", some (1, 1)), ("count", some (1, 1)), ("index", some (3, 1))]
  | .tuple => [("count", some (1, 1))]
  | _ => []

end BuiltIn

end Formula
