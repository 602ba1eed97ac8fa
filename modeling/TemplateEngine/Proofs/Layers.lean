import TemplateEngine.Expression.Grammar
import TemplateEngine.Expression.Printer
import TemplateEngine.Proofs.Results

/-!
# What the parsers of a layer read

What a parser does with tokens of which it is to read the front is said by `Parser.Reads`: it
gives the result and leaves the rest, or it has no level left, and then there are at least as
many tokens as there were levels. A parser of some precedence stops at what cannot go on with
such an expression (`Token.Ends`), so what a tighter parser reads is read by all looser ones
(`Layer.ReadsAt.of_tighter`), and a chain is read link by link (`Layer.Continues`).
-/

namespace TemplateEngine

/-! ## Reading tokens -/

namespace Parser

variable {α β : Type} {p q : Parser α} {f : α → Parser β} {levels : Nat}
  {tokens more after : List Token} {a : α} {b : β}

/-- The parser takes the tokens off the front and gives the result; or it gives up for want of
levels, and there are at least as many tokens as levels. -/
def Reads (p : Parser α) (levels : Nat) (tokens : List Token) (a : α) (after : List Token) : Prop :=
  p (tokens ++ after) = .ok (a, after)
    ∨ levels ≤ tokens.length ∧ ∃ left, p (tokens ++ after) = .error ⟨.tooDeep, left⟩

theorem bind_error {tokens : List Token} {e : ParseFailure} (h : p tokens = .error e) :
    (p >>= f) tokens = .error e := by
  change Parser.bind p f tokens = _
  rw [Parser.bind, h]

theorem bind_assoc {γ : Type} (p : Parser α) (f : α → Parser β) (g : β → Parser γ) :
    p >>= f >>= g = p >>= fun a => f a >>= g := by
  funext tokens
  change Parser.bind (Parser.bind p f) g tokens
    = Parser.bind p (fun a => Parser.bind (f a) g) tokens
  unfold Parser.bind
  cases p tokens <;> rfl

namespace Reads

theorem pure (a : α) : Reads (pure a) levels [] a after := .inl rfl

theorem congr (heq : p (tokens ++ after) = q (tokens ++ after))
    (h : Reads q levels tokens a after) : Reads p levels tokens a after := by
  rwa [Reads, heq]

theorem mono {fewer : Nat} (hle : fewer ≤ levels) (h : Reads p levels tokens a after) :
    Reads p fewer tokens a after :=
  h.imp_right fun ⟨hlength, hleft⟩ => ⟨Nat.le_trans hle hlength, hleft⟩

theorem bind (h : Reads p levels tokens a (more ++ after)) (h' : Reads (f a) levels more b after) :
    Reads (p >>= f) levels (tokens ++ more) b after := by
  rw [Reads, List.append_assoc, List.length_append]
  obtain hp | ⟨hlength, left, hp⟩ := h
  · rw [bind_ok hp]
    obtain hf | ⟨hlength, hleft⟩ := h'
    · exact .inl hf
    · exact .inr ⟨Nat.le_add_left_of_le hlength, hleft⟩
  · exact .inr ⟨Nat.le_add_right_of_le hlength, left, bind_error hp⟩

/-- The tokens behind have one more for the levels of those before. -/
theorem bind_succ (h : Reads p levels tokens a (more ++ after)) (hmore : more ≠ [])
    (h' : Reads (f a) (levels + 1) more b after) :
    Reads (p >>= f) (levels + 1) (tokens ++ more) b after := by
  have hpos := List.length_pos_iff.mpr hmore
  rw [Reads, List.append_assoc, List.length_append]
  obtain hp | ⟨hlength, left, hp⟩ := h
  · rw [bind_ok hp]
    obtain hf | ⟨hlength, hleft⟩ := h'
    · exact .inl hf
    · exact .inr ⟨Nat.le_add_left_of_le hlength, hleft⟩
  · exact .inr ⟨by omega, left, bind_error hp⟩

/-- A result that is made of what is read. -/
theorem map {g : α → β} (h : Reads p levels tokens a after) :
    Reads (p >>= fun a => Pure.pure (g a)) levels tokens (g a) after := by
  rw [← List.append_nil tokens]
  exact bind h (Reads.pure (g a))

/-- A parser that takes a token has one more token for its levels. -/
theorem cons {t : Token} (heq : p (t :: tokens ++ after) = q (tokens ++ after))
    (h : Reads q levels tokens a after) : Reads p (levels + 1) (t :: tokens) a after := by
  rw [Reads, heq]
  exact h.imp_right fun ⟨hlength, hleft⟩ => ⟨Nat.succ_le_succ hlength, hleft⟩

end Reads

/-! ### Single tokens -/

theorem eatSymbol_cons (s : Symbol) (after : List Token) :
    eatSymbol s (.symbol s :: after) = .ok (true, after) := by
  simp [eatSymbol]

theorem eatSymbol_of_ne {s : Symbol} (h : after.head? ≠ some (.symbol s)) :
    eatSymbol s after = .ok (false, after) := by
  unfold eatSymbol
  split
  · next t rest => rw [if_neg (by rintro rfl; exact h rfl)]
  · rfl

theorem eatKeyword_cons (k : Keyword) (after : List Token) :
    eatKeyword k (.keyword k :: after) = .ok (true, after) := by
  simp [eatKeyword]

theorem eatKeyword_of_ne {k : Keyword} (h : after.head? ≠ some (.keyword k)) :
    eatKeyword k after = .ok (false, after) := by
  unfold eatKeyword
  split
  · next t rest => rw [if_neg (by rintro rfl; exact h rfl)]
  · rfl

theorem symbol_cons (s : Symbol) (after : List Token) :
    symbol s (.symbol s :: after) = .ok ((), after) :=
  bind_ok (eatSymbol_cons s after)

theorem keyword_cons (k : Keyword) (after : List Token) :
    keyword k (.keyword k :: after) = .ok ((), after) :=
  bind_ok (eatKeyword_cons k after)

/-- Nothing is left where the tokens end. -/
theorem eq_nil_of_finish {rest : List Token} (h : finish tokens = .ok ((), rest)) :
    tokens = [] ∧ rest = [] := by
  cases tokens with
  | nil =>
    cases h
    exact ⟨rfl, rfl⟩
  | cons t tokens => cases h

/-! ### Whole texts -/

/-- A text is read if its tokens are. -/
theorem parse_eq_ok {α : Type} {p : Parser α} {text : Text} {a : α} :
    p.parse text = .ok a ↔ ∃ lexemes, Lexeme.tokenize text = .ok lexemes
      ∧ p (lexemes.map (·.token)) = .ok (a, []) := by
  rw [parse]
  cases Lexeme.tokenize text with
  | error e => simp [bind, Except.bind]
  | ok lexemes =>
    rw [ok_bind]
    constructor
    · intro h
      split at h
      · next b rest heq =>
        cases h
        obtain ⟨b', middle, hp, hfinish⟩ := bind_eq_ok.mp heq
        obtain ⟨_, last, hlast, hb⟩ := bind_eq_ok.mp hfinish
        cases hb
        obtain ⟨rfl, rfl⟩ := eq_nil_of_finish hlast
        exact ⟨lexemes, rfl, hp⟩
      · cases h
    · rintro ⟨_, ⟨⟩, hp⟩
      have hall : (do let a ← p; finish; return a : Parser α) (lexemes.map (·.token))
          = .ok (a, []) := bind_ok hp
      split
      · next heq =>
        cases hall.symm.trans heq
        rfl
      · next heq => cases hall.symm.trans heq

end Parser

/-! ## What can follow and what can begin -/

namespace Token

/-- The precedence that an expression must have so that the token cannot go on with it. -/
def binding : Token → Nat
  | keyword .ifThen => Precedence.conditional.rank
  | keyword .or => Precedence.disjunction.rank
  | keyword .and => Precedence.conjunction.rank
  | keyword .isIn | keyword .is | keyword .not => Precedence.comparison.rank
  | symbol .equalEqual | symbol .bangEqual | symbol .less | symbol .lessEqual | symbol .greater
  | symbol .greaterEqual => Precedence.comparison.rank
  | symbol .plus | symbol .minus => Precedence.sum.rank
  | symbol .star | symbol .slash | symbol .slashSlash | symbol .percent => Precedence.term.rank
  | symbol .dot | symbol .openBracket => Precedence.access.rank
  | symbol .openParen => Precedence.atom.rank
  | _ => 0

/-- The tightest precedence of the expressions that begin with the token. -/
def opens : Token → Nat
  | int _ | float _ | str _ | name _ => Precedence.atom.rank
  | keyword .true | keyword .false | keyword .none => Precedence.atom.rank
  | symbol .openParen | symbol .openBracket | symbol .openBrace => Precedence.atom.rank
  | symbol .plus | symbol .minus => Precedence.sign.rank
  | keyword .not => Precedence.negation.rank
  | _ => 0

/-- What follows cannot go on with an expression of some precedence. -/
def Ends (place : Precedence) (after : List Token) : Prop :=
  ∀ t ∈ after.head?, t.binding < place.rank

/-- The tokens begin an expression of some precedence. -/
def Begins (place : Precedence) (tokens : List Token) : Prop :=
  ∃ t rest, tokens = t :: rest ∧ place.rank ≤ t.opens

variable {place tighter : Precedence} {t : Token} {tokens after : List Token}

theorem ends_cons : Ends place (t :: after) ↔ t.binding < place.rank := by
  simp [Ends]

theorem ends_nil (place : Precedence) : Ends place [] := by
  simp [Ends]

theorem Ends.mono (h : Ends place after) (hle : place.rank ≤ tighter.rank) : Ends tighter after :=
  fun t ht => Nat.lt_of_lt_of_le (h t ht) hle

/-- A token that goes on with an expression does not follow it. -/
theorem Ends.ne (h : Ends place after) (ht : place.rank ≤ t.binding) : after.head? ≠ some t :=
  fun heq => Nat.not_lt.mpr ht (h t heq)

/-- A token that begins no such expression is not the first. -/
theorem Begins.ne (h : Begins place tokens) (ht : t.opens < place.rank) :
    (tokens ++ after).head? ≠ some t := by
  obtain ⟨first, rest, rfl, hfirst⟩ := h
  rintro heq
  cases heq
  exact Nat.not_lt.mpr hfirst ht

theorem Begins.mono {looser : Precedence} (h : Begins place tokens)
    (hle : looser.rank ≤ place.rank) : Begins looser tokens := by
  obtain ⟨first, rest, rfl, hfirst⟩ := h
  exact ⟨first, rest, rfl, Nat.le_trans hle hfirst⟩

theorem Begins.append (h : Begins place tokens) : Begins place (tokens ++ after) := by
  obtain ⟨first, rest, rfl, hfirst⟩ := h
  exact ⟨first, rest ++ after, rfl, hfirst⟩

end Token

namespace Precedence

theorem rank_inj {place other : Precedence} (h : place.rank = other.rank) : place = other := by
  cases place <;> cases other <;> first | rfl | cases h

theorem rank_next {place : Precedence} (h : place ≠ .atom) : place.next.rank = place.rank + 1 := by
  cases place <;> first | rfl | exact absurd rfl h

theorem rank_pos (place : Precedence) : Precedence.conditional.rank ≤ place.rank := by
  cases place <;> decide

theorem rank_le_atom (place : Precedence) : place.rank ≤ Precedence.atom.rank := by
  cases place <;> decide

theorem rank_le_next (place : Precedence) : place.rank ≤ place.next.rank := by
  cases place <;> decide

/-- What holds of a precedence and is handed on to the next looser one holds of all looser ones. -/
theorem descend {P : Precedence → Prop} {top place : Precedence} (htop : P top)
    (step : ∀ place : Precedence, place ≠ .atom → place.next.rank ≤ top.rank →
      P place.next → P place)
    (hle : place.rank ≤ top.rank) : P place := by
  induction hk : top.rank - place.rank generalizing place with
  | zero =>
    obtain rfl : place = top := rank_inj (by omega)
    exact htop
  | succ k ih =>
    have hatom : place ≠ .atom := by
      rintro rfl
      have htop : top.rank ≤ Precedence.atom.rank := by cases top <;> decide
      omega
    have hnext := rank_next hatom
    exact step place hatom (by omega) (ih (by omega) (by omega))

end Precedence

/-! ## Operators -/

namespace Parser

variable {sum : Parser Expr} {after : List Token} {t : Token}

theorem comparison?_of_ends (h : Token.Ends .comparison after) :
    comparison? after = .ok (none, after) := by
  rcases after with _ | ⟨t, after⟩
  · rfl
  · have hlt := Token.ends_cons.mp h
    cases t with
    | symbol s => cases s <;> first | rfl | exact absurd hlt (by decide)
    | keyword k => cases k <;> first | rfl | exact absurd hlt (by decide)
    | _ => rfl

theorem sumOp?_of_ends (h : Token.Ends .sum after) : sumOp? after = .ok (none, after) := by
  rcases after with _ | ⟨t, after⟩
  · rfl
  · have hlt := Token.ends_cons.mp h
    cases t with
    | symbol s => cases s <;> first | rfl | exact absurd hlt (by decide)
    | _ => rfl

theorem termOp?_of_ends (h : Token.Ends .term after) : termOp? after = .ok (none, after) := by
  rcases after with _ | ⟨t, after⟩
  · rfl
  · have hlt := Token.ends_cons.mp h
    cases t with
    | symbol s => cases s <;> first | rfl | exact absurd hlt (by decide)
    | _ => rfl

theorem sign?_of_begins {tokens : List Token} (h : Token.Begins .access tokens) :
    sign? (tokens ++ after) = .ok (none, tokens ++ after) := by
  obtain ⟨t, rest, rfl, ht⟩ := h
  cases t with
  | symbol s => cases s <;> first | rfl | exact absurd ht (by decide)
  | _ => rfl

theorem linksLoop_of_ends (h : Token.Ends .comparison after) (fuel : Nat) :
    linksLoop sum fuel after = .ok ([], after) := by
  cases fuel with
  | zero => rfl
  | succ fuel => exact bind_ok (comparison?_of_ends h)

/-- A comparison is read from its tokens, if no other one is meant by what follows. -/
theorem comparison?_tokens (c : Comparison) {tokens : List Token}
    (h : Token.Begins .sum tokens) :
    comparison? (c.tokens ++ (tokens ++ after)) = .ok (some c, tokens ++ after) := by
  obtain ⟨t, rest, rfl, ht⟩ := h
  cases c with
  | same =>
    -- `is` would be taken for `is not` before a `not`, with which no sum begins
    cases t with
    | keyword k => cases k <;> first | rfl | exact absurd ht (by decide)
    | _ => rfl
  | _ => rfl

end Parser

/-! ## Layers -/

namespace Layer

open TemplateEngine.Parser

/-- The layer one level further in. -/
def below : Nat → Option Layer
  | 0 => none
  | n + 1 => some (ofDepth n)

theorem ofDepth_eq (n : Nat) : ofDepth n = above (below n) := by
  cases n <;> rfl

/-- Goes on behind the first part of a conditional expression. -/
def choiceRest (layer : Layer) (yes : Expr) : Parser Expr := do
  if ← eatKeyword .ifThen then
    let condition ← layer.conjunction >>= layer.orRest
    keyword .otherwise
    return .choice condition yes (← layer.expression)
  return yes

/-- Goes on behind the first operand of a chain of comparisons. -/
def comparisonRest (layer : Layer) (first : Expr) : Parser Expr := do
  let links ← fun tokens => linksLoop (layer.term >>= layer.sumRest) tokens.length tokens
  return if links.isEmpty then first else .compare first links

/-- Goes on behind an expression that is tighter than the precedence. -/
def rest (layer : Layer) : Precedence → Expr → Parser Expr
  | .conditional => layer.choiceRest
  | .disjunction => layer.orRest
  | .conjunction => layer.andRest
  | .comparison => layer.comparisonRest
  | .sum => layer.sumRest
  | .term => layer.termRest
  | .access => layer.accessRest
  | .negation | .sign | .atom => pure

/-- The parser for expressions of a precedence. -/
def parser (layer : Layer) : Precedence → Parser Expr
  | .conditional => layer.conditional
  | .disjunction => layer.conjunction >>= layer.orRest
  | .conjunction => layer.conjunction
  | .negation => layer.negation
  | .comparison => comparison (layer.term >>= layer.sumRest)
  | .sum => layer.term >>= layer.sumRest
  | .term => layer.term
  | .sign => layer.signed
  | .access => Parser.atom layer.expression >>= layer.accessRest
  | .atom => Parser.atom layer.expression

end Layer

namespace Precedence

/-- The precedences of expressions that begin with a tighter one. -/
def isInfix : Precedence → Bool
  | negation | sign | atom => false
  | _ => true

/-- The precedences of expressions that begin with one of the same precedence. -/
def isChain : Precedence → Bool
  | disjunction | conjunction | sum | term | access => true
  | _ => false

theorem isInfix_of_isChain {place : Precedence} (h : place.isChain = true) :
    place.isInfix = true := by
  cases place <;> first | rfl | cases h

theorem ne_atom_of_isChain {place : Precedence} (h : place.isChain = true) : place ≠ .atom := by
  rintro rfl
  cases h

end Precedence

namespace Layer

open TemplateEngine.Parser

variable {place : Precedence} {n levels : Nat} {after : List Token} {e : Expr}

/-- An expression begins with a tighter one. -/
theorem parser_eq (h : place.isInfix = true) (n : Nat) :
    (ofDepth n).parser place = (ofDepth n).parser place.next >>= (ofDepth n).rest place := by
  rw [ofDepth_eq]
  cases place <;> first | rfl | cases h

/-- An expression in brackets is one level further in. -/
theorem expression_eq (n : Nat) :
    (ofDepth n).expression = enter (below n) (·.parser .conditional) := by
  rw [ofDepth_eq]
  rfl

/-- What `not` stands before is read one level further in. -/
theorem negation_eq (n : Nat) :
    (ofDepth n).parser .negation = eatKeyword .not >>= fun found =>
      if found then .not <$> enter (below n) (·.parser .negation)
      else (ofDepth n).parser .comparison := by
  rw [ofDepth_eq]
  rfl

/-- So is what a sign stands before. -/
theorem signed_eq (n : Nat) :
    (ofDepth n).parser .sign = sign? >>= fun found =>
      found.elim ((ofDepth n).parser .access) fun sign =>
        .signed sign <$> enter (below n) (·.parser .sign) := by
  rw [ofDepth_eq]
  refine congrArg (sign? >>= ·) (funext fun found => ?_)
  cases found <;> rfl

/-- Where no expression goes on the part that has been read is all. -/
theorem rest_of_ends (h : Token.Ends place after) (n : Nat) (e : Expr) :
    (ofDepth n).rest place e after = .ok (e, after) := by
  rw [ofDepth_eq]
  cases place with
  | conditional => exact bind_ok (eatKeyword_of_ne (h.ne (Nat.le_refl _)))
  | disjunction => exact bind_ok (eatKeyword_of_ne (h.ne (Nat.le_refl _)))
  | conjunction => exact bind_ok (eatKeyword_of_ne (h.ne (Nat.le_refl _)))
  | comparison => exact bind_ok (p := fun tokens => _) (linksLoop_of_ends h _)
  | sum => exact bind_ok (sumOp?_of_ends h)
  | term => exact bind_ok (termOp?_of_ends h)
  | access =>
    rcases after with _ | ⟨t, after⟩
    · rfl
    · have hlt := Token.ends_cons.mp h
      cases t with
      | symbol s => cases s <;> first | rfl | exact absurd hlt (by decide)
      | _ => rfl
  | negation | sign | atom => rfl

/-- A level further in is entered if there is one. -/
theorem reads_enter {α : Type} {p : Layer → Parser α} {tokens : List Token} {a : α}
    (h : ∀ m, n = m + 1 → Reads (p (ofDepth m)) n tokens a after) :
    Reads (enter (below n) p) n tokens a after := by
  cases n with
  | zero => exact .inr ⟨Nat.zero_le _, tokens ++ after, rfl⟩
  | succ m => exact h m rfl

/-! ### Chains -/

/-- The parser takes the tokens off the front as the left part of a chain, and goes on in a layer
that is further in by no more levels than there are tokens; or it gives up for want of levels. -/
def Continues (place : Precedence) (p : Parser Expr) (n : Nat) (tokens : List Token) (e : Expr)
    (after : List Token) : Prop :=
  (∃ m, n ≤ m + tokens.length ∧ p (tokens ++ after) = (ofDepth m).rest place e after)
    ∨ n + 1 ≤ tokens.length ∧ ∃ left, p (tokens ++ after) = .error ⟨.tooDeep, left⟩

namespace Continues

variable {p : Parser Expr} {tokens more : List Token} {t : Token} {left : Expr}

/-- The first part of a chain. -/
theorem of_reads (h : Reads p (n + 1) tokens e after) :
    Continues place (p >>= (ofDepth n).rest place) n tokens e after := by
  obtain hp | ⟨hlength, left, hp⟩ := h
  · exact .inl ⟨n, Nat.le_add_right n _, bind_ok hp⟩
  · exact .inr ⟨hlength, left, bind_error hp⟩

/-- A chain that ends has been read. -/
theorem reads (h : Continues place p n tokens e after) (hends : Token.Ends place after) :
    Reads p (n + 1) tokens e after := by
  obtain ⟨m, -, hp⟩ | hdeep := h
  · exact .inl (hp.trans (rest_of_ends hends m e))
  · exact .inr hdeep

/-- A chain with another link. -/
theorem append (h : Continues place p n tokens left (more ++ after))
    (hmore : ∀ m, Continues place ((ofDepth m).rest place left) m more e after) :
    Continues place p n (tokens ++ more) e after := by
  rw [Continues, List.append_assoc, List.length_append]
  obtain ⟨m, hm, hp⟩ | ⟨hlength, hleft⟩ := h
  · rw [hp]
    obtain ⟨k, hk, hrest⟩ | ⟨hlength, hleft⟩ := hmore m
    · exact .inl ⟨k, by omega, hrest⟩
    · exact .inr ⟨by omega, hleft⟩
  · exact .inr ⟨Nat.le_add_right_of_le hlength, hleft⟩

/-- A link is read one level further in. -/
theorem link {α : Type} {q : Layer → Parser α} {g : α → Expr} {a : α}
    (hzero : n = 0 → ∃ left, p (t :: tokens ++ after) = .error ⟨.tooDeep, left⟩)
    (hsucc : ∀ m, n = m + 1 → p (t :: tokens ++ after)
      = (q (ofDepth m) >>= fun a => (ofDepth m).rest place (g a)) (tokens ++ after))
    (hread : ∀ m, n = m + 1 → Reads (q (ofDepth m)) n tokens a after) :
    Continues place p n (t :: tokens) (g a) after := by
  rw [Continues, List.length_cons]
  cases n with
  | zero =>
    -- no level is left, and the operator alone is a token more than that
    exact .inr ⟨Nat.succ_le_succ (Nat.zero_le _), hzero rfl⟩
  | succ m =>
    rw [hsucc m rfl]
    obtain hq | ⟨hlength, left, hq⟩ := hread m rfl
    · exact .inl ⟨m, by omega, bind_ok hq⟩
    · exact .inr ⟨Nat.succ_le_succ hlength, left, bind_error hq⟩

end Continues

end Layer

/-- The operators that associate to the left: where they stand, how they are written and what they
make of their operands. -/
inductive Operator : Precedence → Token → (Expr → Expr → Expr) → Prop
  | or : Operator .disjunction (.keyword .or) .or
  | and : Operator .conjunction (.keyword .and) .and
  | binary (op : BinaryOp) : Operator op.precedence op.token (.binary op)

namespace Operator

open Layer TemplateEngine.Parser

variable {place : Precedence} {t : Token} {combine : Expr → Expr → Expr}

theorem binding_eq (h : Operator place t combine) : t.binding = place.rank := by
  cases h with
  | or | and => rfl
  | binary op => cases op <;> rfl

theorem isChain (h : Operator place t combine) : place.isChain = true := by
  cases h with
  | or | and => rfl
  | binary op => cases op <;> rfl

theorem rest_eq (h : Operator place t combine) (n : Nat) (left : Expr) (after : List Token) :
    (ofDepth n).rest place left (t :: after)
      = enter (below n) (fun layer => layer.parser place.next >>= fun right =>
        layer.rest place (combine left right)) after := by
  rw [ofDepth_eq]
  cases h with
  | or | and => rfl
  | binary op => cases op <;> rfl

/-- An operator and its right operand go on with a chain. -/
theorem continues (h : Operator place t combine) {n : Nat} {left right : Expr}
    {tokens after : List Token}
    (hread : ∀ m, n = m + 1 → Reads ((ofDepth m).parser place.next) n tokens right after) :
    Continues place ((ofDepth n).rest place left) n (t :: tokens) (combine left right) after := by
  refine .link (q := fun layer => layer.parser place.next) ?_ ?_ hread
  · rintro rfl
    exact ⟨_, h.rest_eq 0 left _⟩
  · rintro m rfl
    exact h.rest_eq (m + 1) left _

end Operator

/-! ## Looser places -/

namespace Layer

open TemplateEngine.Parser

variable {place : Precedence} {tokens : List Token} {e : Expr}

/-- In all layers the parser of some precedence reads the tokens as the expression, wherever
expressions of that precedence end. -/
def ReadsAt (place : Precedence) (tokens : List Token) (e : Expr) : Prop :=
  ∀ n after, Token.Ends place after → Reads ((ofDepth n).parser place) (n + 1) tokens e after

/-- What is read by the parser of a tighter precedence is read by that of the next looser one. -/
theorem reads_loosen {n levels : Nat} {after : List Token} (hatom : place ≠ .atom)
    (h : Reads ((ofDepth n).parser place.next) levels tokens e after)
    (hbegins : Token.Begins place.next tokens) (hends : Token.Ends place after) :
    Reads ((ofDepth n).parser place) levels tokens e after := by
  cases hinfix : place.isInfix with
  | true =>
    rw [parser_eq hinfix, ← List.append_nil tokens]
    exact h.bind (.inl (rest_of_ends hends n e))
  | false =>
    -- these look at the first token, which here begins something tighter
    cases place with
    | negation =>
      refine .congr ?_ h
      rw [ofDepth_eq]
      exact bind_ok (eatKeyword_of_ne (hbegins.ne (by decide)))
    | sign =>
      refine .congr ?_ h
      rw [ofDepth_eq]
      exact bind_ok (sign?_of_begins hbegins)
    | atom => exact absurd rfl hatom
    | _ => cases hinfix

/-- What is read by the parser of a tighter precedence is read by that of a looser one. -/
theorem reads_of_tighter {n levels : Nat} {after : List Token} {top : Precedence}
    (h : Reads ((ofDepth n).parser top) levels tokens e after) (hbegins : Token.Begins top tokens)
    (hends : Token.Ends place after) (hle : place.rank ≤ top.rank) :
    Reads ((ofDepth n).parser place) levels tokens e after := by
  revert hends
  refine Precedence.descend (P := fun place => Token.Ends place after →
    Reads ((ofDepth n).parser place) levels tokens e after) (fun _ => h) ?_ hle
  intro place hatom hnext hread hends
  exact reads_loosen hatom (hread (hends.mono place.rank_le_next)) (hbegins.mono hnext) hends

theorem ReadsAt.of_tighter {top : Precedence} (h : ReadsAt top tokens e)
    (hbegins : Token.Begins top tokens) (hle : place.rank ≤ top.rank) : ReadsAt place tokens e :=
  fun n after hends => reads_of_tighter (h n after (hends.mono hle)) hbegins hends hle

end Layer

end TemplateEngine
