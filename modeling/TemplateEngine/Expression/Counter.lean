import TemplateEngine.Expression.Grammar
import TemplateEngine.Expression.Printer

/-!
# Levels in a counter

The grammar once more, with its levels in a counter that all parsers share. Entering a level adds
one (`Counted.descend`), and fails if that is more than there may be. What nests leaves its level
when it has been read; a chain enters a level with each link, and where it ends the counter is put
back to what it was before the chain.

The parsers call each other, and nothing here tells how often. So a parser says how many steps it
may take, which is one more than the parsers that it calls, and gives `none` if these are not
enough.
-/

namespace TemplateEngine

namespace Parser

/-- The operator of a chain at the front, if there is one, by what it makes of its operands. -/
def operator? : Precedence → Parser (Option (Expr → Expr → Expr))
  | .disjunction => do return if ← eatKeyword .or then some .or else none
  | .conjunction => do return if ← eatKeyword .and then some .and else none
  | .sum => do return (← sumOp?).map .binary
  | .term => do return (← termOp?).map .binary
  | _ => pure none

/-- A constant or a name. -/
def leaf : Parser Expr
  | .int i :: rest => .ok (.literal (.int i), rest)
  | .float x :: rest => .ok (.literal (.float x), rest)
  | .str s :: rest => .ok (.literal (.str s), rest)
  | .name n :: rest => .ok (.name n, rest)
  | .keyword .true :: rest => .ok (.literal (.bool true), rest)
  | .keyword .false :: rest => .ok (.literal (.bool false), rest)
  | .keyword .none :: rest => .ok (.literal .null, rest)
  | .keyword k :: rest => fail (.unexpectedKeyword k) (.keyword k :: rest)
  | tokens => fail .expectedExpression tokens

/-- The function that is called by an expression: only a bare name calls one. -/
def callee : Expr → Parser Text
  | .name f => pure f
  | _ => fail .notCallable

/-- The target and the operator of an assignment, if they are next. -/
def target? : Parser (Option (Text × Option BinaryOp))
  | .name target :: .symbol s :: rest =>
    match assignment? s with
    | some op => .ok (some (target, op), rest)
    | none => .ok (none, .name target :: .symbol s :: rest)
  | tokens => .ok (none, tokens)

end Parser

/-- Where a parser stands: the levels that have been entered, and the tokens that are left. -/
structure Stand where
  depth : Nat
  tokens : List Token

/-- A parser that keeps the levels in a counter, and gives `none` if its steps are not enough. -/
abbrev Counted (α : Type) : Type := StateT Stand (ExceptT ParseFailure Option) α

namespace Counted

open TemplateEngine.Parser

variable {α : Type}

/-! ## The counter -/

/-- A parser that needs no level. -/
def take (p : Parser α) : Counted α := fun s =>
  match p s.tokens with
  | .ok (a, rest) => pure (a, { s with tokens := rest })
  | .error e => throw e

/-- Whether the symbol is next. -/
def isNext (s : Symbol) : Counted Bool := do
  match (← get).tokens with
  | .symbol t :: _ => return s = t
  | _ => return false

/-- The levels that have been entered. -/
def depth : Counted Nat := do return (← get).depth

/-- Puts the counter back. -/
def restore (depth : Nat) : Counted Unit := modify fun s => { s with depth := depth }

/-- Enters a level, if there may be one more. -/
def descend : Counted Unit := do
  restore ((← depth) + 1)
  if Expr.maxDepth < (← depth) then take (fail .tooDeep)

/-- Enters a level if an attribute, a subscript or a call is next. -/
def descendToLink : Counted Unit := do
  if (← isNext .dot) || (← isNext .openBracket) || (← isNext .openParen) then descend

/-- Leaves a level. -/
def ascend : Counted Unit := do restore ((← depth) - 1)

/-- The steps that were allowed have been taken. -/
def unfinished : Counted α := fun _ => (none : Option (Except ParseFailure (α × Stand)))

/-! ## Expressions -/

mutual

/-- An expression one level further in. -/
def expression : Nat → Counted Expr
  | 0 => unfinished
  | steps + 1 => do
    descend
    let e ← conditional steps
    ascend
    return e

def conditional : Nat → Counted Expr
  | 0 => unfinished
  | steps + 1 => do
    let yes ← chain .disjunction steps
    if ← take (eatKeyword .ifThen) then
      let condition ← chain .disjunction steps
      take (keyword .otherwise)
      return .choice condition yes (← expression steps)
    return yes

/-- A chain of operators: `or`, `and`, sums and terms. -/
def chain (place : Precedence) : Nat → Counted Expr
  | 0 => unfinished
  | steps + 1 => do
    let before ← depth
    let e ← chainLoop place (← parser place.next steps) steps
    restore before
    return e

/-- The links of a chain, each of which enters a level. -/
def chainLoop (place : Precedence) (left : Expr) : Nat → Counted Expr
  | 0 => unfinished
  | steps + 1 => do
    match ← take (operator? place) with
    | some combine =>
      descend
      chainLoop place (combine left (← parser place.next steps)) steps
    | none => return left

def negation : Nat → Counted Expr
  | 0 => unfinished
  | steps + 1 => do
    if ← take (eatKeyword .not) then
      descend
      let operand ← negation steps
      ascend
      return .not operand
    comparison steps

def comparison : Nat → Counted Expr
  | 0 => unfinished
  | steps + 1 => do
    let first ← chain .sum steps
    let links ← comparisonLoop steps
    return if links.isEmpty then first else .compare first links

def comparisonLoop : Nat → Counted (List (Comparison × Expr))
  | 0 => unfinished
  | steps + 1 => do
    match ← take comparison? with
    | some c =>
      let e ← chain .sum steps
      return (c, e) :: (← comparisonLoop steps)
    | none => return []

def signed : Nat → Counted Expr
  | 0 => unfinished
  | steps + 1 => do
    match ← take sign? with
    | some sign =>
      descend
      let operand ← signed steps
      ascend
      return .signed sign operand
    | none => access steps

/-- An atom and its attributes, subscripts and calls. -/
def access : Nat → Counted Expr
  | 0 => unfinished
  | steps + 1 => do
    let before ← depth
    let e ← accessLoop (← atom steps) steps
    restore before
    return e

/-- The links of a chain of accesses, each of which enters a level. -/
def accessLoop (e : Expr) : Nat → Counted Expr
  | 0 => unfinished
  | steps + 1 => do
    descendToLink
    if ← take (eatSymbol .dot) then
      let n ← take name
      if ← take (eatSymbol .openParen) then
        let args ← items .closeParen steps
        accessLoop (.method e n args) steps
      else accessLoop (.dot e n) steps
    else if ← take (eatSymbol .openBracket) then
      let index ← expression steps
      take (symbol .closeBracket)
      accessLoop (.subscript e index) steps
    else if ← isNext .openParen then
      let f ← take (callee e)
      take (symbol .openParen)
      let args ← items .closeParen steps
      accessLoop (.call f args) steps
    else return e

/-- A constant, a name or something in brackets. -/
def atom : Nat → Counted Expr
  | 0 => unfinished
  | steps + 1 => do
    if ← take (eatSymbol .openParen) then parenthesized steps
    else if ← take (eatSymbol .openBracket) then return .list (← items .closeBracket steps)
    else if ← take (eatSymbol .openBrace) then return .dict (← entries steps)
    else take leaf

def parenthesized : Nat → Counted Expr
  | 0 => unfinished
  | steps + 1 => do
    if ← take (eatSymbol .closeParen) then return .list []
    let first ← expression steps
    if ← take (eatSymbol .closeParen) then return first
    take (symbol .comma)
    return .list (first :: (← items .closeParen steps))

/-- The expressions up to `close`. -/
def items (close : Symbol) : Nat → Counted (List Expr)
  | 0 => unfinished
  | steps + 1 => do
    if ← take (eatSymbol close) then return []
    let e ← expression steps
    if ← take (eatSymbol .comma) then return e :: (← items close steps)
    take (symbol close)
    return [e]

/-- The entries of a dictionary. -/
def entries : Nat → Counted (List (Expr × Expr))
  | 0 => unfinished
  | steps + 1 => do
    if ← take (eatSymbol .closeBrace) then return []
    let key ← expression steps
    take (symbol .colon)
    let value ← expression steps
    if ← take (eatSymbol .comma) then return (key, value) :: (← entries steps)
    take (symbol .closeBrace)
    return [(key, value)]

/-- The parser for expressions of a precedence. -/
def parser (place : Precedence) : Nat → Counted Expr
  | 0 => unfinished
  | steps + 1 =>
    match place with
    | .conditional => conditional steps
    | .disjunction => chain .disjunction steps
    | .conjunction => chain .conjunction steps
    | .negation => negation steps
    | .comparison => comparison steps
    | .sum => chain .sum steps
    | .term => chain .term steps
    | .sign => signed steps
    | .access => access steps
    | .atom => atom steps

end

/-! ## Statements -/

/-- An assignment or an expression. -/
def statement (steps : Nat) : Counted Statement := do
  match ← take target? with
  | some (target, op) => return .assign target op (← expression steps)
  | none => return .evaluate (← expression steps)

/-- Statements with semicolons between them and perhaps one at the end. -/
def statementsLoop : Nat → Counted (List Statement)
  | 0 => unfinished
  | steps + 1 => do
    if (← get).tokens.isEmpty then return []
    let s ← statement steps
    unless ← take (eatSymbol .semicolon) do take finish
    return s :: (← statementsLoop steps)

/-- At least one statement. -/
def statements (steps : Nat) : Counted (List Statement) := do
  let ss ← statementsLoop steps
  if ss.isEmpty then take (fail .expectedStatement) else return ss

/-! ## Whole texts -/

/-- The error where a parser gave up. -/
def located (lexemes : List Lexeme) (failure : ParseFailure) : ParseError :=
  let left := lexemes.drop (lexemes.length - failure.rest.length)
  ⟨failure.fault, (left.head?.map (·.source)).getD []⟩

/-- Reads a whole text: all its tokens must be taken. -/
def parse (c : Counted α) (text : Text) : Option (Except ParseError α) :=
  match Lexeme.tokenize text with
  | .error e => some (.error e)
  | .ok lexemes =>
    let all : Counted α := do let a ← c; take finish; return a
    Option.map (fun result => (result.map (·.1)).mapError (located lexemes))
      (all ⟨0, lexemes.map (·.token)⟩)

end Counted

end TemplateEngine
