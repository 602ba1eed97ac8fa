import TemplateEngine.Expression.Lexeme

/-!
# Parsers

The second step of reading a tag: tokens become a tree. A `Parser` takes tokens from the
front of a list and either gives a result with the tokens left, or fails at some place in
the list. `Parser.parse` runs a parser on a whole text.
-/

namespace TemplateEngine

/-- Where a parser gave up: the fault, and the tokens left. -/
structure ParseFailure where
  fault : ParseFault
  rest : List Token

/-- A parser takes tokens from the front of a list, or fails somewhere in it. -/
def Parser (α : Type) : Type := List Token → Except ParseFailure (α × List Token)

namespace Parser

variable {α β : Type}

/-- Take nothing. -/
protected def pure (a : α) : Parser α := fun tokens => .ok (a, tokens)

/-- One parser after the other. -/
protected def bind (p : Parser α) (f : α → Parser β) : Parser β := fun tokens =>
  match p tokens with
  | .ok (a, rest) => f a rest
  | .error e => .error e

instance : Monad Parser where
  pure := Parser.pure
  bind := Parser.bind

@[simp] theorem pure_apply (a : α) (tokens : List Token) :
    (pure a : Parser α) tokens = .ok (a, tokens) := rfl

/-- Introduction for `bind`. -/
theorem bind_ok {p : Parser α} {f : α → Parser β} {tokens rest : List Token} {a : α}
    (h : p tokens = .ok (a, rest)) : (p >>= f) tokens = f a rest := by
  change Parser.bind p f tokens = _
  simp [Parser.bind, h]

/-- Inversion for `bind`. -/
theorem bind_eq_ok {p : Parser α} {f : α → Parser β} {tokens rest : List Token} {b : β} :
    (p >>= f) tokens = .ok (b, rest) ↔
      ∃ a middle, p tokens = .ok (a, middle) ∧ f a middle = .ok (b, rest) := by
  change Parser.bind p f tokens = _ ↔ _
  unfold Parser.bind
  split
  · next a middle h =>
    constructor
    · exact fun hf => ⟨a, middle, h, hf⟩
    · rintro ⟨a', middle', ha, hf⟩
      rw [h] at ha
      obtain ⟨rfl, rfl⟩ := Prod.mk.inj (Except.ok.inj ha)
      exact hf
  · next e h => simp [h]

/-! ## Single tokens -/

/-- Fail here. -/
def fail (fault : ParseFault) : Parser α := fun tokens => .error ⟨fault, tokens⟩

/-- Takes the symbol if it is next. -/
def eatSymbol (s : Symbol) : Parser Bool
  | .symbol t :: rest => if s = t then .ok (true, rest) else .ok (false, .symbol t :: rest)
  | tokens => .ok (false, tokens)

/-- Takes the keyword if it is next. -/
def eatKeyword (k : Keyword) : Parser Bool
  | .keyword l :: rest => if k = l then .ok (true, rest) else .ok (false, .keyword l :: rest)
  | tokens => .ok (false, tokens)

/-- Takes the symbol, which must be next. -/
def symbol (s : Symbol) : Parser Unit := do
  if ← eatSymbol s then pure () else fail (.expectedSymbol s)

/-- Takes the keyword, which must be next. -/
def keyword (k : Keyword) : Parser Unit := do
  if ← eatKeyword k then pure () else fail (.expectedKeyword k)

/-- Takes a name that is no keyword, which must be next. -/
def name : Parser Text
  | .name n :: rest => .ok (n, rest)
  | tokens => fail .expectedName tokens

/-- Nothing may be left. -/
def finish : Parser Unit
  | [] => .ok ((), [])
  | tokens => fail .unexpectedInput tokens

/-! ## Whole texts -/

/-- Reads a whole text: all its tokens must be taken. -/
def parse {α : Type} (p : Parser α) (text : Text) : Except ParseError α := do
  let lexemes ← Lexeme.tokenize text
  match (do let a ← p; finish; return a : Parser α) (lexemes.map (·.token)) with
  | .ok (a, _) => return a
  | .error failure =>
    let left := lexemes.drop (lexemes.length - failure.rest.length)
    throw ⟨failure.fault, (left.head?.map (·.source)).getD []⟩

end Parser

end TemplateEngine
