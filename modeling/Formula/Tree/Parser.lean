import Formula.Text.Radix
import Formula.Token.Lexer
import Formula.Tree.Chain

set_option autoImplicit false

/-! # From tokens to a tree

An expression is a chain of operands, perhaps followed by `if`, a condition, `else` and another
expression. An operand is a literal, a name, a member, a call, a list of literals, or an expression
in round brackets.

The condition of a conditional is the range of tokens up to the first `else` that no closing bracket
of the enclosing expression precedes; it is read as an expression of its own, whose end is the end
of that range. Every error names a token by its index, or the place behind the last token. -/

namespace Formula

/-! ## Errors -/

/-- What is wrong with a row of tokens. -/
inductive SyntaxFault where
  | emptyExpression
  | mismatchedParenthesis
  | unexpected (token : String)
  | unexpectedEnd
  | missingElse
  | missingCondition
  | missingAlternative
  | numberExpected (sign : String)
  | deepMember
  | unclosedCall
  | emptyList
  | mixedList
  | unclosedList
  | badItem (token : String)
  | separatorExpected
  deriving DecidableEq, Repr

/-- The wording of a fault. -/
def SyntaxFault.message : SyntaxFault → String
  | emptyExpression => "Empty expression"
  | mismatchedParenthesis => "Mismatched parenthesis"
  | unexpected token => "Unexpected token '" ++ token ++ "'"
  | unexpectedEnd => "Unexpected end of expression"
  | missingElse => "No 'else' found in expression"
  | missingCondition => "Missing condition in ternary expression"
  | missingAlternative => "Missing expression after 'else'"
  | numberExpected sign => "Expected a number after '" ++ sign ++ "'"
  | deepMember => "Can only access members one level deep"
  | unclosedCall => "Mismatched parenthesis in function call"
  | emptyList => "Could not infer list type from empty list"
  | mixedList => "Cannot mix strings and numbers in a list"
  | unclosedList => "Mismatched bracket in list"
  | badItem token => "Could not parse list item '" ++ token ++ "'"
  | separatorExpected => "Expected ',' or ']' in list"

/-- A fault, the index of the token it was found at, and that token's text when it is named. -/
structure SyntaxError where
  fault : SyntaxFault
  index : Nat
  token : Option String
  deriving DecidableEq, Repr

/-- Why a row of tokens gives no tree: it is malformed, an integer has too many digits to be read,
or an integer in a list of doubles is too large for one. -/
inductive Unreadable where
  | malformed (error : SyntaxError)
  | tooManyDigits (count : Nat)
  | tooLargeForDouble
  deriving DecidableEq, Repr

/-- The wording of an unreadable row. -/
def Unreadable.message : Unreadable → String
  | malformed error => error.fault.message
  | tooManyDigits count =>
    "Exceeds the limit (4300 digits) for integer string conversion: value has " ++ toString count ++
      " digits; use sys.set_int_max_str_digits() to increase the limit"
  | tooLargeForDouble => "int too large to convert to float"

/-- The fault, found at the given token. -/
def SyntaxFault.at {α : Type} (fault : SyntaxFault) (t : Token) : Except Unreadable α :=
  .error (.malformed ⟨fault, t.index, some t.text⟩)

/-- The fault, found at the first of the remaining tokens, or at the end, whose index is `stop`. -/
def SyntaxFault.atFirst {α : Type} (fault : SyntaxFault) (stop : Nat) :
    List Token → Except Unreadable α
  | [] => .error (.malformed ⟨fault, stop, some ""⟩)
  | t :: _ => fault.at t

/-- The fault, found at the end, whose index is `stop`. -/
def SyntaxFault.atEnd {α : Type} (fault : SyntaxFault) (stop : Nat) : Except Unreadable α :=
  .error (.malformed ⟨fault, stop, none⟩)

/-! ## Numbers -/

/-- The literal that a number token denotes: a double if it has a point, an integer otherwise. -/
def readNumber (negative : Bool) (text : List Char) : Except Unreadable Scalar :=
  if '.' ∈ text then
    let whole := text.takeWhile (· ≠ '.')
    let fraction := (text.dropWhile (· ≠ '.')).drop 1
    .ok (.double (.ofDecimal negative (Text.readDigits (whole ++ fraction)) fraction.length))
  else if Text.digitLimit < text.length then .error (.tooManyDigits text.length)
  else
    let size : Int := Text.readDigits text
    .ok (.int (if negative then -size else size))

/-! ## Lists -/

/-- The literal items of one list, as far as they were read. -/
abbrev Collected := Option Items

/-- An integer as a double. -/
def doubleOfInt (n : Int) : Except Unreadable Number.Binary64 :=
  (Number.Binary64.ofInt? n).elim (.error .tooLargeForDouble) .ok

/-- Adds a number to the items read so far, or fails with the given error after a string. The first
double turns the integers before it into doubles, and those after it follow. -/
def Items.addNumber (mixed : Unreadable) : Collected → Scalar → Except Unreadable Items
  | some (.strings _), _ => .error mixed
  | none, .double x => .ok (.doubles [x])
  | some (.ints items), .double x => do return .doubles ((← items.mapM doubleOfInt) ++ [x])
  | some (.doubles items), .double x => .ok (.doubles (items ++ [x]))
  | none, .int n => .ok (.ints [n])
  | some (.ints items), .int n => .ok (.ints (items ++ [n]))
  | some (.doubles items), .int n => do return .doubles (items ++ [← doubleOfInt n])
  | _, _ => .error mixed

/-- Adds a string to the items read so far, or fails with the given error after a number. -/
def Items.addString (mixed : Unreadable) : Collected → String → Except Unreadable Items
  | none, s => .ok (.strings [s])
  | some (.strings items), s => .ok (.strings (items ++ [s]))
  | _, _ => .error mixed

/-- The error of a list that mixes kinds, found at the given token. -/
def mixedAt (t : Token) : Unreadable := .malformed ⟨.mixedList, t.index, some t.text⟩

mutual

/-- Reads the items of a list up to its closing bracket. -/
def readItems (stop : Nat) (items : Collected) : List Token → Except Unreadable (Items × List Token)
  | [] => SyntaxFault.unclosedList.atEnd stop
  | t :: rest =>
    match t.kind with
    | .rightBracket =>
      match items with
      | some items => .ok (items, rest)
      | none => SyntaxFault.emptyList.at t
    | .string => do readSeparator stop (← Items.addString (mixedAt t) items t.value) rest
    | .number => do
      let number ← readNumber false t.value.toList
      readSeparator stop (← Items.addNumber (mixedAt t) items number) rest
    | .operator =>
      if t.value = "-" then
        match rest with
        | n :: rest =>
          if n.kind = .number then do
            let number ← readNumber true n.value.toList
            readSeparator stop (← Items.addNumber (mixedAt t) items number) rest
          else (SyntaxFault.numberExpected t.value).at n
        | [] => (SyntaxFault.numberExpected t.value).atFirst stop []
      else (SyntaxFault.badItem t.text).at t
    | _ => (SyntaxFault.badItem t.text).at t

/-- Reads what follows an item of a list: a comma and more items, or the closing bracket. -/
def readSeparator (stop : Nat) (items : Items) : List Token → Except Unreadable (Items × List Token)
  | [] => SyntaxFault.separatorExpected.atFirst stop []
  | t :: rest =>
    match t.kind with
    | .comma => readItems stop (some items) rest
    | .rightBracket => .ok (items, rest)
    | _ => SyntaxFault.separatorExpected.at t

end

/-- Reads a list whose opening bracket is the token `opening`. -/
def readList (stop : Nat) (opening : Token) (rest : List Token) :
    Except Unreadable (Node × List Token) :=
  match rest with
  | t :: _ =>
    if t.kind = .rightBracket then SyntaxFault.emptyList.at opening
    else do
      let (items, rest) ← readItems stop none rest
      return (.list items, rest)
  | [] => SyntaxFault.unclosedList.atEnd stop

/-! ## Names -/

/-- The segments of a dotted path. -/
def segments (path : List Char) : List (List Char) :=
  match path with
  | [] => [[]]
  | c :: cs =>
    match c, segments cs with
    | '.', parts => [] :: parts
    | c, part :: parts => (c :: part) :: parts
    | c, [] => [[c]]

/-- The parent, if any, and the name that a name token denotes. -/
def splitPath (t : Token) : Except Unreadable (Option String × String) :=
  match segments t.value.toList with
  | [name] => .ok (none, String.ofList name)
  | [parent, name] => .ok (some (String.ofList parent), String.ofList name)
  | _ => SyntaxFault.deepMember.at t

/-- The operand that a name token denotes when no call follows. -/
def readName (t : Token) : Except Unreadable Node :=
  let spelling := Text.lower t.value
  if spelling = "true" then .ok (.literal (.bool true))
  else if spelling = "false" then .ok (.literal (.bool false))
  else do
    match ← splitPath t with
    | (some parent, name) => return .member parent name
    | (none, name) => return .name name

/-! ## Conditions -/

/-- Cuts the tokens after `if` at the first `else`, unless a bracket that was open before is closed
first; `depth` brackets have been opened since. -/
def splitElse (depth : Nat) : List Token → Option (List Token × List Token)
  | [] => none
  | t :: rest =>
    match t.kind with
    | .leftParen | .leftBracket => (splitElse (depth + 1) rest).map fun (a, b) => (t :: a, b)
    | .rightParen | .rightBracket =>
      match depth with
      | 0 => none
      | depth + 1 => (splitElse depth rest).map fun (a, b) => (t :: a, b)
    | _ =>
      if t.isKeyword "else" then some ([], rest)
      else (splitElse depth rest).map fun (a, b) => (t :: a, b)

/-- The index of the place behind the last of the given tokens. -/
def endIndex (tokens : List Token) : Nat :=
  match tokens.getLast? with
  | some t => t.index + 1
  | none => 0

/-- An expression must be followed by nothing. -/
def atEnd {α : Type} (result : α) : List Token → Except Unreadable α
  | [] => .ok result
  | t :: _ =>
    if t.kind = .rightParen then SyntaxFault.mismatchedParenthesis.at t
    else (SyntaxFault.unexpected t.text).at t

/-! ## Expressions -/

mutual

/-- Reads an expression from the front of the tokens. The first argument bounds the depth of calls
and `stop` is the index of the end of the tokens. -/
def readExpression : Nat → Nat → List Token → Except Unreadable (Node × List Token)
  | 0, stop, _ => SyntaxFault.unexpectedEnd.atEnd stop
  | fuel + 1, stop, ts => do
    let (first, ts) ← readOperand fuel stop ts
    let (links, ts) ← readLinks fuel stop ts
    let chain := (Chain.group first links).toNode
    match ts with
    | t :: rest =>
      if t.isKeyword "if" then
        match splitElse 0 rest with
        | none => SyntaxFault.missingElse.at t
        | some ([], _) => SyntaxFault.missingCondition.at t
        | some (range, rest) =>
          let condition ← readWhole fuel range
          match rest with
          | [] => SyntaxFault.missingAlternative.atEnd stop
          | rest =>
            let (falsy, rest) ← readExpression fuel stop rest
            return (.conditional condition chain falsy, rest)
      else return (chain, ts)
    | [] => return (chain, ts)

/-- Reads a row of tokens that is one expression. -/
def readWhole : Nat → List Token → Except Unreadable Node
  | 0, ts => SyntaxFault.unexpectedEnd.atEnd (endIndex ts)
  | fuel + 1, ts => do
    let (node, rest) ← readExpression fuel (endIndex ts) ts
    atEnd node rest

/-- Reads operators, each with the operand that follows it. -/
def readLinks : Nat → Nat → List Token → Except Unreadable (List (Operator × Node) × List Token)
  | 0, stop, _ => SyntaxFault.unexpectedEnd.atEnd stop
  | _ + 1, _, [] => .ok ([], [])
  | fuel + 1, stop, t :: rest =>
    match t.operator? with
    | none => .ok ([], t :: rest)
    | some op => do
      let (node, rest) ← readOperand fuel stop rest
      let (links, rest) ← readLinks fuel stop rest
      return ((op, node) :: links, rest)

/-- Reads one operand. -/
def readOperand : Nat → Nat → List Token → Except Unreadable (Node × List Token)
  | 0, stop, _ => SyntaxFault.unexpectedEnd.atEnd stop
  | _ + 1, stop, [] => SyntaxFault.unexpectedEnd.atEnd stop
  | fuel + 1, stop, t :: rest =>
    match t.kind with
    | .leftParen => do
      let (node, rest) ← readExpression fuel stop rest
      match rest with
      | close :: rest =>
        if close.kind = .rightParen then return (node, rest)
        else SyntaxFault.mismatchedParenthesis.at close
      | [] => SyntaxFault.mismatchedParenthesis.atFirst stop []
    | .string => .ok (.literal (.string t.value), rest)
    | .leftBracket => readList stop t rest
    | .operator =>
      if t.value = "-" ∨ t.value = "+" then
        match rest with
        | n :: rest =>
          if n.kind = .number then do
            return (.literal (← readNumber (decide (t.value = "-")) n.value.toList), rest)
          else (SyntaxFault.numberExpected t.value).at n
        | [] => (SyntaxFault.numberExpected t.value).atFirst stop []
      else (SyntaxFault.unexpected t.text).at t
    | .number => do return (.literal (← readNumber false t.value.toList), rest)
    | .name =>
      match rest with
      | opening :: after =>
        if opening.kind = .leftParen then do
          let (parent, name) ← splitPath t
          let (arguments, rest) ← readArguments fuel stop after
          return (.call parent name arguments, rest)
        else do return (← readName t, rest)
      | [] => do return (← readName t, rest)
    | _ => (SyntaxFault.unexpected t.text).at t

/-- Reads the arguments of a call after its opening bracket, and the closing one. -/
def readArguments : Nat → Nat → List Token → Except Unreadable (List Node × List Token)
  | 0, stop, _ => SyntaxFault.unexpectedEnd.atEnd stop
  | fuel + 1, stop, ts =>
    match ts with
    | t :: rest =>
      if t.kind = .rightParen then .ok ([], rest)
      else do
        let (first, rest) ← readExpression fuel stop (t :: rest)
        let (more, rest) ← readMoreArguments fuel stop rest
        return (first :: more, rest)
    | [] => SyntaxFault.unexpectedEnd.atEnd stop

/-- Reads what follows an argument of a call: a comma and more arguments, or the closing bracket. -/
def readMoreArguments : Nat → Nat → List Token → Except Unreadable (List Node × List Token)
  | 0, stop, _ => SyntaxFault.unexpectedEnd.atEnd stop
  | fuel + 1, stop, ts =>
    match ts with
    | t :: rest =>
      match t.kind with
      | .rightParen => .ok ([], rest)
      | .comma => do
        let (next, rest) ← readExpression fuel stop rest
        let (more, rest) ← readMoreArguments fuel stop rest
        return (next :: more, rest)
      | _ => SyntaxFault.unclosedCall.at t
    | [] => SyntaxFault.unclosedCall.atFirst stop []

end

/-- The tree of a row of tokens. Every call that consumes nothing is followed by one that consumes a
token, which bounds the depth. -/
def parseTokens (tokens : List Token) : Except Unreadable Node :=
  match tokens with
  | [] => .error (.malformed ⟨.emptyExpression, 0, none⟩)
  | tokens => readWhole (2 * tokens.length + 3) tokens

end Formula
