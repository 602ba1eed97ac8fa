import TemplateEngine.Expression
import TemplateEngine.Expression.Lexeme
import TemplateEngine.Value.Printer

/-!
# The text of an expression

The other way round: the tokens that an expression is written with, and a text for tokens. An
expression stands in parentheses where its place asks for one that holds together more tightly
(`Expr.within`), and nowhere else. Blanks may stand between all tokens; they must stand where
two tokens would run together (`Token.Spelled`). `Expr.print` is the shortest such text.
-/

namespace TemplateEngine

/-! ## Precedence -/

/-- How tightly an expression holds together, from the loosest. -/
inductive Precedence where
  | conditional
  | disjunction
  | conjunction
  | negation
  | comparison
  | sum
  | term
  | sign
  | access
  | atom
  deriving DecidableEq, Repr

namespace Precedence

/-- The place in the order, from 1. -/
def rank : Precedence → Nat
  | conditional => 1
  | disjunction => 2
  | conjunction => 3
  | negation => 4
  | comparison => 5
  | sum => 6
  | term => 7
  | sign => 8
  | access => 9
  | atom => 10

/-- What holds together more tightly by one. -/
def next : Precedence → Precedence
  | conditional => disjunction
  | disjunction => conjunction
  | conjunction => negation
  | negation => comparison
  | comparison => sum
  | sum => term
  | term => sign
  | sign => access
  | access | atom => atom

end Precedence

/-- The precedence of an operator. -/
def BinaryOp.precedence : BinaryOp → Precedence
  | add | sub => .sum
  | mul | div | floorDiv | mod => .term

namespace Expr

/-- The precedence of an expression. -/
def precedence : Expr → Precedence
  | literal _ | name _ | list _ | dict _ => .atom
  | dot _ _ | subscript _ _ | call _ _ | method _ _ _ => .access
  | signed _ _ => .sign
  | binary op _ _ => op.precedence
  | compare _ _ => .comparison
  | not _ => .negation
  | and _ _ => .conjunction
  | or _ _ => .disjunction
  | choice _ _ _ => .conditional

end Expr

/-! ## Tokens -/

/-- How an operator is written. -/
def BinaryOp.token : BinaryOp → Token
  | add => .symbol .plus
  | sub => .symbol .minus
  | mul => .symbol .star
  | div => .symbol .slash
  | floorDiv => .symbol .slashSlash
  | mod => .symbol .percent

/-- How a sign is written. -/
def Sign.token : Sign → Token
  | minus => .symbol .minus
  | plus => .symbol .plus

/-- How a comparison is written. -/
def Comparison.tokens : Comparison → List Token
  | equal => [.symbol .equalEqual]
  | unequal => [.symbol .bangEqual]
  | less => [.symbol .less]
  | atMost => [.symbol .lessEqual]
  | greater => [.symbol .greater]
  | atLeast => [.symbol .greaterEqual]
  | member => [.keyword .isIn]
  | notMember => [.keyword .not, .keyword .isIn]
  | same => [.keyword .is]
  | different => [.keyword .is, .keyword .not]

/-- How a value is written. Lists and dictionaries are no literals. -/
def Value.tokens : Value → List Token
  | null => [.keyword .none]
  | bool b => [.keyword (if b then .true else .false)]
  | int i => [.int i]
  | float x => [.float x]
  | str s => [.str s]
  | list _ | dict _ => []

/-- Tokens for a place that asks for some precedence: in parentheses if their own is looser. -/
def Precedence.fit (place own : Precedence) (tokens : List Token) : List Token :=
  if own.rank < place.rank then .symbol .openParen :: tokens ++ [.symbol .closeParen] else tokens

namespace Expr

mutual

/-- The tokens of an expression. -/
def tokens : Expr → List Token
  | literal v => v.tokens
  | name n => [.name n]
  | list items => .symbol .openBracket :: itemTokens items ++ [.symbol .closeBracket]
  | dict entries => .symbol .openBrace :: entryTokens entries ++ [.symbol .closeBrace]
  | dot target n => Precedence.access.fit target.precedence (tokens target)
      ++ [.symbol .dot, .name n]
  | subscript target index => Precedence.access.fit target.precedence (tokens target)
      ++ .symbol .openBracket :: (tokens index ++ [.symbol .closeBracket])
  | call f args => .name f :: .symbol .openParen :: (itemTokens args ++ [.symbol .closeParen])
  | method target n args => Precedence.access.fit target.precedence (tokens target)
      ++ .symbol .dot :: .name n :: .symbol .openParen :: (itemTokens args
        ++ [.symbol .closeParen])
  | signed sign operand => sign.token
      :: Precedence.sign.fit operand.precedence (tokens operand)
  | binary op left right => op.precedence.fit left.precedence (tokens left)
      ++ op.token :: op.precedence.next.fit right.precedence (tokens right)
  | compare first links => Precedence.sum.fit first.precedence (tokens first)
      ++ linkTokens links
  | not operand => .keyword .not
      :: Precedence.negation.fit operand.precedence (tokens operand)
  | and left right => Precedence.conjunction.fit left.precedence (tokens left)
      ++ .keyword .and :: Precedence.negation.fit right.precedence (tokens right)
  | or left right => Precedence.disjunction.fit left.precedence (tokens left)
      ++ .keyword .or :: Precedence.conjunction.fit right.precedence (tokens right)
  | choice condition yes no => Precedence.disjunction.fit yes.precedence (tokens yes)
      ++ .keyword .ifThen :: (Precedence.disjunction.fit condition.precedence (tokens condition)
        ++ .keyword .otherwise :: tokens no)

/-- The tokens of expressions with commas between them. -/
def itemTokens : List Expr → List Token
  | [] => []
  | [e] => tokens e
  | e :: next :: items => tokens e ++ .symbol .comma :: itemTokens (next :: items)

/-- The tokens of the entries of a dictionary with commas between them. -/
def entryTokens : List (Expr × Expr) → List Token
  | [] => []
  | [(key, e)] => tokens key ++ .symbol .colon :: tokens e
  | (key, e) :: next :: entries =>
    tokens key ++ .symbol .colon :: tokens e ++ .symbol .comma :: entryTokens (next :: entries)

/-- The tokens of the links of a chain of comparisons. -/
def linkTokens : List (Comparison × Expr) → List Token
  | [] => []
  | (c, e) :: links =>
    c.tokens ++ Precedence.sum.fit e.precedence (tokens e) ++ linkTokens links

end

/-- The tokens of an expression in a place that asks for some precedence. -/
def within (place : Precedence) (e : Expr) : List Token := place.fit e.precedence e.tokens

end Expr

/-! ## Texts -/

namespace Token

/-- How a token is written. -/
def spelling : Token → Text
  | int i => Decimal.ofInt i.toInt
  | float x => Binary.text x
  | str s => s.quoted
  | name n => n
  | keyword k => k.spelling
  | symbol s => s.spelling

/-- A token and the text behind it do not run together. -/
def apart : Token → Text → Bool
  | int _, text => (digits text).1.isEmpty && (fraction text).1.isEmpty && (exponent text).1.isEmpty
  | name _, text | keyword _, text => text.head?.all fun c => !continuesName c
  | symbol s, text => text.head?.all fun c => Symbol.all.all (·.spelling != s.spelling ++ [c])
  | str _, _ | float _, _ => true

/-- A text is spelled from tokens, with blanks between them where needed. -/
inductive Spelled : List Token → Text → Prop
  | nil {blanks : Text} (hblanks : ∀ c ∈ blanks, Character.isBlank c = true) : Spelled [] blanks
  | cons {blanks : Text} {t : Token} {tokens : List Token} {text : Text}
    (hblanks : ∀ c ∈ blanks, Character.isBlank c = true) (hapart : t.apart text = true)
    (h : Spelled tokens text) : Spelled (t :: tokens) (blanks ++ t.spelling ++ text)

/-- The shortest text that is spelled from tokens. -/
def write : List Token → Text
  | [] => []
  | t :: tokens => t.spelling
      ++ if t.apart (write tokens) then write tokens else ' ' :: write tokens

/-- A blank keeps everything apart. -/
theorem apart_blank (t : Token) (text : Text) : t.apart (' ' :: text) = true := by
  cases t with
  | int i => rfl
  | symbol s => cases s <;> rfl
  | name n | keyword k => exact (by decide +kernel : (!continuesName ' ') = true)
  | float x | str s => rfl

namespace Spelled

variable {tokens : List Token} {text : Text}

/-- A blank may stand before tokens. -/
theorem blank (h : Spelled tokens text) : Spelled tokens (' ' :: text) := by
  cases h with
  | nil hblanks => exact .nil (List.forall_mem_cons.mpr ⟨by decide, hblanks⟩)
  | cons hblanks hapart h =>
    exact .cons (List.forall_mem_cons.mpr ⟨by decide, hblanks⟩) hapart h

/-- A token may stand right before others that it does not run together with. -/
theorem token {t : Token} (hapart : t.apart text = true) (h : Spelled tokens text) :
    Spelled (t :: tokens) (t.spelling ++ text) := by
  change Spelled _ ([] ++ t.spelling ++ text)
  exact .cons (fun c hc => absurd hc List.not_mem_nil) hapart h

end Spelled

/-- The shortest text is one of those that are spelled from the tokens. -/
theorem spelled_write (tokens : List Token) : Spelled tokens (write tokens) := by
  induction tokens with
  | nil => exact .nil fun c hc => absurd hc List.not_mem_nil
  | cons t tokens ih =>
    rw [write]
    split
    · next hapart => exact ih.token hapart
    · exact ih.blank.token (apart_blank t _)

end Token

/-- The text of an expression. -/
def Expr.print (e : Expr) : Text := Token.write e.tokens

/-! ## What can be printed -/

/-- Names that are no keywords. -/
structure Text.Identifier (n : Text) : Prop where
  begins : ∃ c rest, n = c :: rest ∧ Token.beginsName c = true
  continues : ∀ c ∈ n, Token.continuesName c = true
  no_keyword : Keyword.ofText? n = none

instance (n : Text) : Decidable n.Identifier :=
  decidable_of_iff (n.head?.any Token.beginsName = true
      ∧ n.all Token.continuesName = true ∧ Keyword.ofText? n = none) <| by
    rw [List.all_eq_true, Option.any_eq_true]
    constructor
    · rintro ⟨⟨c, hhead, hc⟩, hcontinues, hkeyword⟩
      obtain ⟨rest, rfl⟩ := List.head?_eq_some_iff.mp hhead
      exact ⟨⟨c, rest, rfl, hc⟩, hcontinues, hkeyword⟩
    · rintro ⟨⟨c, rest, rfl, hc⟩, hcontinues, hkeyword⟩
      exact ⟨⟨c, rfl, hc⟩, hcontinues, hkeyword⟩

namespace Expr

/-- The expressions that have a text: their literals are constants and strings and integers
without a sign, their names are no keywords, and no chain of comparisons is empty. -/
inductive Printable : Expr → Prop
  | null : Printable (.literal .null)
  | bool (b : Bool) : Printable (.literal (.bool b))
  | int {i : Int64} (hi : 0 ≤ i.toInt) : Printable (.literal (.int i))
  | str (s : Text) : Printable (.literal (.str s))
  | name {n : Text} (hn : n.Identifier) : Printable (.name n)
  | list {items : List Expr} (hitems : ∀ e ∈ items, Printable e) : Printable (.list items)
  | dict {entries : List (Expr × Expr)} (hkeys : ∀ entry ∈ entries, Printable entry.1)
    (hvalues : ∀ entry ∈ entries, Printable entry.2) : Printable (.dict entries)
  | dot {target : Expr} {n : Text} (htarget : Printable target) (hn : n.Identifier) :
    Printable (.dot target n)
  | subscript {target index : Expr} (htarget : Printable target) (hindex : Printable index) :
    Printable (.subscript target index)
  | call {f : Text} {args : List Expr} (hf : f.Identifier) (hargs : ∀ e ∈ args, Printable e) :
    Printable (.call f args)
  | method {target : Expr} {n : Text} {args : List Expr} (htarget : Printable target)
    (hn : n.Identifier) (hargs : ∀ e ∈ args, Printable e) : Printable (.method target n args)
  | signed (sign : Sign) {operand : Expr} (hoperand : Printable operand) :
    Printable (.signed sign operand)
  | binary (op : BinaryOp) {left right : Expr} (hleft : Printable left)
    (hright : Printable right) : Printable (.binary op left right)
  | compare {first : Expr} {links : List (Comparison × Expr)} (hfirst : Printable first)
    (hne : links ≠ []) (hlinks : ∀ link ∈ links, Printable link.2) :
    Printable (.compare first links)
  | not {operand : Expr} (hoperand : Printable operand) : Printable (.not operand)
  | and {left right : Expr} (hleft : Printable left) (hright : Printable right) :
    Printable (.and left right)
  | or {left right : Expr} (hleft : Printable left) (hright : Printable right) :
    Printable (.or left right)
  | choice {condition yes no : Expr} (hcondition : Printable condition) (hyes : Printable yes)
    (hno : Printable no) : Printable (.choice condition yes no)

end Expr

end TemplateEngine
