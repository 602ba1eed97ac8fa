import TemplateEngine.Expression
import TemplateEngine.Expression.Parser

/-!
# The grammar of expressions and statements

From loosest to tightest:

* `yes if condition else no`, nesting in its `else` part;
* `or`, `and`, `not`;
* chains of comparisons;
* sums, terms, signs;
* attributes, subscripts and calls;
* constants, names, lists, dictionaries and parentheses.

Sums, terms, `and` and `or` associate to the left.

How deep an expression may nest is bounded. The parsers are therefore built in *layers*: the
layer `n` holds the parsers for the places where `n` more levels are allowed, each made
from the layer below. A level is entered by every sub-expression in brackets, by the operand
of a sign or of `not`, and by every link of a chain of operators or accesses. In the last
layer entering a level is the error `tooDeep`.
-/

namespace TemplateEngine

namespace Parser

/-! ## Parts that enter no level by themselves -/

/-- The rest of a list of expressions up to `close`, with a comma after each but perhaps the
last. Every round takes a token, so `fuel` is the number of tokens. -/
def itemsLoop (expression : Parser Expr) (close : Symbol) : (fuel : Nat) → Parser (List Expr)
  | 0 => fail .unexpectedInput
  | fuel + 1 => do
    if ← eatSymbol close then return []
    let e ← expression
    if ← eatSymbol .comma then return e :: (← itemsLoop expression close fuel)
    symbol close
    return [e]

/-- The expressions up to `close`. -/
def items (expression : Parser Expr) (close : Symbol) : Parser (List Expr) := fun tokens =>
  itemsLoop expression close (tokens.length + 1) tokens

/-- The rest of the entries of a dictionary, up to its closing brace. -/
def entriesLoop (expression : Parser Expr) : (fuel : Nat) → Parser (List (Expr × Expr))
  | 0 => fail .unexpectedInput
  | fuel + 1 => do
    if ← eatSymbol .closeBrace then return []
    let key ← expression
    symbol .colon
    let value ← expression
    if ← eatSymbol .comma then return (key, value) :: (← entriesLoop expression fuel)
    symbol .closeBrace
    return [(key, value)]

/-- The entries of a dictionary. -/
def entries (expression : Parser Expr) : Parser (List (Expr × Expr)) := fun tokens =>
  entriesLoop expression (tokens.length + 1) tokens

/-- What follows an opening parenthesis: one expression, or a tuple, which is a list. -/
def parenthesized (expression : Parser Expr) : Parser Expr := do
  if ← eatSymbol .closeParen then return .list []
  let first ← expression
  if ← eatSymbol .closeParen then return first
  symbol .comma
  return .list (first :: (← items expression .closeParen))

/-- A constant, a name or something in brackets. -/
def atom (expression : Parser Expr) : Parser Expr
  | .int i :: rest => .ok (.literal (.int i), rest)
  | .float x :: rest => .ok (.literal (.float x), rest)
  | .str s :: rest => .ok (.literal (.str s), rest)
  | .name n :: rest => .ok (.name n, rest)
  | .keyword .true :: rest => .ok (.literal (.bool true), rest)
  | .keyword .false :: rest => .ok (.literal (.bool false), rest)
  | .keyword .none :: rest => .ok (.literal .null, rest)
  | .keyword k :: rest => fail (.unexpectedKeyword k) (.keyword k :: rest)
  | .symbol .openParen :: rest => parenthesized expression rest
  | .symbol .openBracket :: rest => (Expr.list <$> items expression .closeBracket) rest
  | .symbol .openBrace :: rest => (Expr.dict <$> entries expression) rest
  | tokens => fail .expectedExpression tokens

/-- The comparison at the front, if there is one. -/
def comparison? : Parser (Option Comparison)
  | .symbol .equalEqual :: rest => .ok (some .equal, rest)
  | .symbol .bangEqual :: rest => .ok (some .unequal, rest)
  | .symbol .less :: rest => .ok (some .less, rest)
  | .symbol .lessEqual :: rest => .ok (some .atMost, rest)
  | .symbol .greater :: rest => .ok (some .greater, rest)
  | .symbol .greaterEqual :: rest => .ok (some .atLeast, rest)
  | .keyword .isIn :: rest => .ok (some .member, rest)
  | .keyword .not :: .keyword .isIn :: rest => .ok (some .notMember, rest)
  | .keyword .is :: .keyword .not :: rest => .ok (some .different, rest)
  | .keyword .is :: rest => .ok (some .same, rest)
  | tokens => .ok (none, tokens)

/-- The links of a chain of comparisons. Every link takes a token, so `fuel` is the number of
tokens. -/
def linksLoop (sum : Parser Expr) : (fuel : Nat) → Parser (List (Comparison × Expr))
  | 0 => pure []
  | fuel + 1 => do
    match ← comparison? with
    | none => return []
    | some c =>
      let e ← sum
      return (c, e) :: (← linksLoop sum fuel)

/-- A sum, or a chain of comparisons between sums. -/
def comparison (sum : Parser Expr) : Parser Expr := do
  let first ← sum
  let links ← fun tokens => linksLoop sum tokens.length tokens
  return if links.isEmpty then first else .compare first links

/-- The operator of a sum at the front, if there is one. -/
def sumOp? : Parser (Option BinaryOp)
  | .symbol .plus :: rest => .ok (some .add, rest)
  | .symbol .minus :: rest => .ok (some .sub, rest)
  | tokens => .ok (none, tokens)

/-- The operator of a term at the front, if there is one. -/
def termOp? : Parser (Option BinaryOp)
  | .symbol .star :: rest => .ok (some .mul, rest)
  | .symbol .slashSlash :: rest => .ok (some .floorDiv, rest)
  | .symbol .slash :: rest => .ok (some .div, rest)
  | .symbol .percent :: rest => .ok (some .mod, rest)
  | tokens => .ok (none, tokens)

/-- The sign at the front, if there is one. -/
def sign? : Parser (Option Sign)
  | .symbol .minus :: rest => .ok (some .minus, rest)
  | .symbol .plus :: rest => .ok (some .plus, rest)
  | tokens => .ok (none, tokens)

end Parser

/-! ## Layers -/

/-- The parsers for places that allow the same number of further levels. The parsers named
`…Rest` go on with a chain of which the left part has been read. -/
structure Layer where
  /-- an expression that stays on this level -/
  conditional : Parser Expr
  /-- an expression one level further in -/
  expression : Parser Expr
  orRest : Expr → Parser Expr
  conjunction : Parser Expr
  andRest : Expr → Parser Expr
  negation : Parser Expr
  sumRest : Expr → Parser Expr
  term : Parser Expr
  termRest : Expr → Parser Expr
  signed : Parser Expr
  accessRest : Expr → Parser Expr

namespace Layer

open TemplateEngine.Parser

/-- Goes on with a parser one level further in. -/
def enter {α : Type} (inner : Option Layer) (p : Layer → Parser α) : Parser α :=
  match inner with
  | some layer => p layer
  | none => fail .tooDeep

/-- What may follow an atom or an access: an attribute, a method call, a subscript, or the
call of a function, which must have a bare name. -/
def accessRestWith (inner : Option Layer) (e : Expr) : Parser Expr
  | .symbol .dot :: rest =>
    match inner with
    | none => fail .tooDeep (.symbol .dot :: rest)
    | some layer => (do
      let n ← name
      if ← eatSymbol .openParen then
        let args ← items layer.expression .closeParen
        layer.accessRest (.method e n args)
      else layer.accessRest (.dot e n)) rest
  | .symbol .openBracket :: rest =>
    match inner with
    | none => fail .tooDeep (.symbol .openBracket :: rest)
    | some layer => (do
      let index ← layer.expression
      symbol .closeBracket
      layer.accessRest (.subscript e index)) rest
  | .symbol .openParen :: rest =>
    match inner, e with
    | none, _ => fail .tooDeep (.symbol .openParen :: rest)
    | some layer, .name f => (do
      let args ← items layer.expression .closeParen
      layer.accessRest (.call f args)) rest
    | some _, _ => fail .notCallable (.symbol .openParen :: rest)
  | tokens => .ok (e, tokens)

/-- The layer that enters `inner` for its sub-expressions. -/
def above (inner : Option Layer) : Layer :=
  let expression : Parser Expr := enter inner (·.conditional)
  let accessRest := accessRestWith inner
  let access : Parser Expr := do accessRest (← atom expression)
  let signed : Parser Expr := do
    match ← sign? with
    | some s => return .signed s (← enter inner (·.signed))
    | none => access
  let termRest (e : Expr) : Parser Expr := do
    match ← termOp? with
    | some op => enter inner fun layer => do layer.termRest (.binary op e (← layer.signed))
    | none => return e
  let term : Parser Expr := do termRest (← signed)
  let sumRest (e : Expr) : Parser Expr := do
    match ← sumOp? with
    | some op => enter inner fun layer => do layer.sumRest (.binary op e (← layer.term))
    | none => return e
  let sum : Parser Expr := do sumRest (← term)
  let negation : Parser Expr := do
    if ← eatKeyword .not then return .not (← enter inner (·.negation))
    comparison sum
  let andRest (e : Expr) : Parser Expr := do
    if ← eatKeyword .and then
      enter inner fun layer => do layer.andRest (.and e (← layer.negation))
    else return e
  let conjunction : Parser Expr := do andRest (← negation)
  let orRest (e : Expr) : Parser Expr := do
    if ← eatKeyword .or then
      enter inner fun layer => do layer.orRest (.or e (← layer.conjunction))
    else return e
  let disjunction : Parser Expr := do orRest (← conjunction)
  let conditional : Parser Expr := do
    let yes ← disjunction
    if ← eatKeyword .ifThen then
      let condition ← disjunction
      keyword .otherwise
      return .choice condition yes (← expression)
    return yes
  { conditional, expression, orRest, conjunction, andRest, negation, sumRest, term, termRest,
    signed, accessRest }

/-- The layer with `n` levels below it. -/
def ofDepth : (n : Nat) → Layer
  | 0 => above none
  | n + 1 => above (some (ofDepth n))

end Layer

/-! ## Whole texts -/

/-- The number of levels an expression may have. -/
def Expr.maxDepth : Nat := 100

namespace Parser

/-- An expression with all its levels. -/
def expression : Parser Expr := (Layer.ofDepth Expr.maxDepth).expression

/-- The assignment operator a symbol stands for: plain, or with a binary operator. -/
def assignment? : Symbol → Option (Option BinaryOp)
  | .equal => some none
  | .plusEqual => some (some .add)
  | .minusEqual => some (some .sub)
  | .starEqual => some (some .mul)
  | .slashEqual => some (some .div)
  | _ => none

/-- An assignment, if a name and an assignment operator are next, else an expression. -/
def statement : Parser Statement
  | .name target :: .symbol s :: rest =>
    match assignment? s with
    | some op => (Statement.assign target op <$> expression) rest
    | none => (Statement.evaluate <$> expression) (.name target :: .symbol s :: rest)
  | tokens => (Statement.evaluate <$> expression) tokens

/-- Statements with semicolons between them and perhaps one at the end. Every round takes a
token, so `fuel` is the number of tokens. -/
def statementsLoop : (fuel : Nat) → Parser (List Statement)
  | 0 => pure []
  | fuel + 1 => fun tokens =>
    if tokens.isEmpty then .ok ([], [])
    else (do
      let s ← statement
      unless ← eatSymbol .semicolon do finish
      return s :: (← statementsLoop fuel)) tokens

/-- At least one statement. -/
def statements : Parser (List Statement) := do
  let ss ← fun tokens => statementsLoop tokens.length tokens
  if ss.isEmpty then fail .expectedStatement else return ss

/-- Further targets of a loop. Every round takes a token, so `fuel` is the number of
tokens. -/
def targetsLoop : (fuel : Nat) → Parser (List Text)
  | 0 => pure []
  | fuel + 1 => do
    if ← eatSymbol .comma then
      let n ← name
      return n :: (← targetsLoop fuel)
    else return []

/-- The head of a loop. -/
def loopHeader : Parser LoopHeader := do
  let first ← name
  let others ← fun tokens => targetsLoop tokens.length tokens
  keyword .isIn
  return ⟨first :: others, ← expression⟩

end Parser

/-- Reads an expression. -/
def Expr.parse (text : Text) : Except ParseError Expr := Parser.expression.parse text

/-- Reads the statements of a tag. -/
def Statement.parseAll (text : Text) : Except ParseError (List Statement) :=
  Parser.statements.parse text

/-- Reads the head of a loop. -/
def LoopHeader.parse (text : Text) : Except ParseError LoopHeader := Parser.loopHeader.parse text

end TemplateEngine
