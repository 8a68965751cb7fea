import Formula.Yaml.Scalar
import Formula.Yaml.Token

set_option autoImplicit false

/-! # The nodes of a document

A document is a tree of scalars, sequences and mappings. A node that is left out is an empty plain
scalar. Functions that read nodes are given fuel, of which every call spends one; a token is read at
every second call at least. -/

namespace Formula.Yaml

/-- A node. -/
inductive Node where
  | scalar (s : Scalar)
  | sequence (items : List Node)
  | mapping (entries : List (Node × Node))

namespace Node

/-- A node that is left out. -/
def empty : Node := .scalar (.plain "")

/-! ## Reading -/

/-- Reads a node, or leaves it out before one of some tokens. -/
def unlessAt (ends : List Token) (read : List Token → Option (Node × List Token))
    (tokens : List Token) : Option (Node × List Token) :=
  if (tokens.take 1).any ends.contains then some (empty, tokens) else read tokens

/-- Passes over the comma between two parts; none stands before the first. -/
def afterComma (isFirst : Bool) : List Token → Option (List Token)
  | .comma :: rest => if isFirst then none else some rest
  | tokens => if isFirst then some tokens else none

mutual

/-- Reads a node. The dashes of a sequence need not be indented in the value of a mapping. -/
def read? : Nat → Bool → List Token → Option (Node × List Token)
  | 0, _, _ => none
  | fuel + 1, dashAllowed, tokens =>
    match tokens with
    | .scalar s :: rest => some (.scalar s, rest)
    | .openBracket :: rest => do
      let (items, rest) ← readListed? fuel true rest
      return (.sequence items, rest)
    | .openBrace :: rest => do
      let (entries, rest) ← readPairs? fuel true rest
      return (.mapping entries, rest)
    | .sequenceStart :: rest => do
      let (items, rest) ← readItems? fuel rest
      return (.sequence items, rest)
    | .mappingStart :: rest => do
      let (entries, rest) ← readEntries? fuel rest
      return (.mapping entries, rest)
    | .dash :: _ =>
      if dashAllowed then do
        let (items, rest) ← readDashes? fuel tokens
        return (.sequence items, rest)
      else none
    | _ => none

/-- Reads the items of an indented sequence. -/
def readItems? : Nat → List Token → Option (List Node × List Token)
  | 0, _ => none
  | fuel + 1, tokens =>
    match tokens with
    | .dash :: rest => do
      let (item, rest) ← unlessAt [.dash, .blockEnd] (read? fuel false) rest
      let (items, rest) ← readItems? fuel rest
      return (item :: items, rest)
    | .blockEnd :: rest => some ([], rest)
    | _ => none

/-- Reads the items of a sequence that is not indented; it ends where no dash follows. -/
def readDashes? : Nat → List Token → Option (List Node × List Token)
  | 0, _ => none
  | fuel + 1, tokens =>
    match tokens with
    | .dash :: rest => do
      let (item, rest) ← unlessAt [.dash, .key, .value, .blockEnd] (read? fuel false) rest
      let (items, rest) ← readDashes? fuel rest
      return (item :: items, rest)
    | _ => some ([], tokens)

/-- Reads the entries of an indented mapping. -/
def readEntries? : Nat → List Token → Option (List (Node × Node) × List Token)
  | 0, _ => none
  | fuel + 1, tokens =>
    match tokens with
    | .key :: rest => do
      let ends := [.key, .value, .blockEnd]
      let (key, rest) ← unlessAt ends (read? fuel true) rest
      let (value, rest) ← match rest with
        | .value :: rest => unlessAt ends (read? fuel true) rest
        | _ => some (empty, rest)
      let (entries, rest) ← readEntries? fuel rest
      return ((key, value) :: entries, rest)
    | .blockEnd :: rest => some ([], rest)
    | _ => none

/-- Reads the items of a sequence in square brackets. One that is a pair is not read. -/
def readListed? : Nat → Bool → List Token → Option (List Node × List Token)
  | 0, _, _ => none
  | fuel + 1, isFirst, tokens =>
    match tokens with
    | .closeBracket :: rest => some ([], rest)
    | _ => do
      let tokens ← afterComma isFirst tokens
      match tokens with
      | .closeBracket :: rest => return ([], rest)
      | _ =>
        let (item, rest) ← read? fuel false tokens
        let (items, rest) ← readListed? fuel false rest
        return (item :: items, rest)

/-- Reads the entries of a mapping in braces. A node by itself is a key without a value. -/
def readPairs? : Nat → Bool → List Token → Option (List (Node × Node) × List Token)
  | 0, _, _ => none
  | fuel + 1, isFirst, tokens =>
    match tokens with
    | .closeBrace :: rest => some ([], rest)
    | _ => do
      let tokens ← afterComma isFirst tokens
      match tokens with
      | .closeBrace :: rest => return ([], rest)
      | .key :: rest =>
        let (key, rest) ← unlessAt [.value, .comma, .closeBrace] (read? fuel false) rest
        let (value, rest) ← match rest with
          | .value :: rest => unlessAt [.comma, .closeBrace] (read? fuel false) rest
          | _ => some (empty, rest)
        let (entries, rest) ← readPairs? fuel false rest
        return ((key, value) :: entries, rest)
      | _ =>
        let (key, rest) ← read? fuel false tokens
        let (entries, rest) ← readPairs? fuel false rest
        return ((key, empty) :: entries, rest)

end

/-- Reads a row of tokens that holds at most one document. Its end may be marked several times. -/
def ofTokens? (tokens : List Token) : Option Node := do
  let fuel := 2 * tokens.length + 2
  let (node, rest) ← match tokens with
    | [] => some (empty, [])
    | .documentStart :: [] => some (empty, [])
    | .documentStart :: rest =>
      unlessAt [.documentStart, .documentEnd] (read? fuel false) rest
    | _ => read? fuel false tokens
  if rest.all (· == .documentEnd) then return node else none

/-! ## Values -/

/-- The value of a scalar. -/
def scalarValue? : Scalar → Option Value
  | .plain text => plainValue? text
  | .quoted text => some (.str text)

mutual

/-- The value of a node; a mapping has none. -/
def value? : Node → Option Value
  | scalar s => scalarValue? s
  | sequence items => (values? items).map .list
  | mapping _ => none

/-- The values of some nodes. -/
def values? : List Node → Option (List Value)
  | [] => some []
  | node :: nodes => do return (← value? node) :: (← values? nodes)

end

/-- The value of a node that is a key. An equals sign is a text here. -/
def key? : Node → Option Value
  | scalar (.plain "=") => some (.str "=")
  | scalar s => scalarValue? s
  | _ => none

end Node

end Formula.Yaml
