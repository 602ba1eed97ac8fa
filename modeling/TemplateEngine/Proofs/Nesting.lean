import TemplateEngine.Proofs.Layers
import TemplateEngine.Proofs.Results

/-!
# How deep expressions nest

Levels are counted along the text and not along the tree. Each link of a chain enters a level, and
all of them are left where the chain ends; but the first part of the chain has been read before its
links, with as many levels for its own. So a tree can be deeper than there are levels
(`Expr.nesting_exceeds_levels`).

It is not deep without bound. Nothing nests that has not been written, so there is an operator for
every level of the tree. And in brackets a level less is left, and with some number of levels left
each of the five kinds of chains adds no more links than that (`Layer.reach`). Both are shown parser
by parser from the layer below (`Layer.bounded`), with a count of the operators that a parser takes
(`Parser.Gives`).
-/

namespace TemplateEngine

/-! ## Nesting -/

namespace Expr

mutual

/-- The greatest number of operators, signs, accesses and calls on a path from an expression to its
innermost parts. Lists, dictionaries, comparisons and conditional expressions do not count. -/
def nesting : Expr → Nat
  | literal _ | name _ => 0
  | list items => nestingItems items
  | dict entries => nestingEntries entries
  | dot target _ => nesting target + 1
  | subscript target index => max (nesting target) (nesting index) + 1
  | call _ args => nestingItems args + 1
  | method target _ args => max (nesting target) (nestingItems args) + 1
  | signed _ operand | not operand => nesting operand + 1
  | binary _ left right | and left right | or left right => max (nesting left) (nesting right) + 1
  | compare first links => max (nesting first) (nestingLinks links)
  | choice condition yes no => max (nesting condition) (max (nesting yes) (nesting no))

/-- The greatest nesting of several expressions. -/
def nestingItems : List Expr → Nat
  | [] => 0
  | e :: items => max (nesting e) (nestingItems items)

/-- The greatest nesting of keys and values. -/
def nestingEntries : List (Expr × Expr) → Nat
  | [] => 0
  | (key, e) :: entries => max (max (nesting key) (nesting e)) (nestingEntries entries)

/-- The greatest nesting of the operands in links. -/
def nestingLinks : List (Comparison × Expr) → Nat
  | [] => 0
  | (_, e) :: links => max (nesting e) (nestingLinks links)

end

end Expr

/-- The expression that a statement evaluates. -/
def Statement.value : Statement → Expr
  | assign _ _ value | evaluate value => value

/-! ## Operators -/

namespace Token

/-- Operators and signs, and what accesses and calls begin with. -/
def isOperator : Token → Bool
  | keyword .or | keyword .and | keyword .not => true
  | symbol .plus | symbol .minus | symbol .star | symbol .slash | symbol .slashSlash
  | symbol .percent | symbol .dot | symbol .openBracket | symbol .openParen => true
  | _ => false

/-- The number of operators among tokens. -/
def operators (tokens : List Token) : Nat := tokens.countP isOperator

variable {t : Token} {tokens all : List Token}

theorem operators_cons (h : t.isOperator = true) :
    operators (t :: tokens) = operators tokens + 1 :=
  List.countP_cons_of_pos h

theorem operators_le_of_suffix (h : tokens <:+ all) : operators tokens ≤ operators all :=
  h.sublist.countP_le

/-- What holds of no operators holds of some that have been taken. -/
theorem exists_used {P : Nat → Prop} (hsuffix : tokens <:+ all) (h : P 0) :
    ∃ used, used + operators tokens ≤ operators all ∧ P used := by
  refine ⟨0, ?_, h⟩
  rw [Nat.zero_add]
  exact operators_le_of_suffix hsuffix

theorem exists_used_of_operator {P : Nat → Prop} (ht : t.isOperator = true) (h : P 1) :
    ∃ used, used + operators tokens ≤ operators (t :: tokens) ∧ P used := by
  refine ⟨1, ?_, h⟩
  have hcons : operators (t :: tokens) = operators tokens + 1 := operators_cons ht
  omega

end Token

/-- The number of operators in the text of a tag. -/
def Text.operators (text : Text) : Nat :=
  match Lexeme.tokenize text with
  | .ok lexemes => Token.operators (lexemes.map (·.token))
  | .error _ => 0

/-! ## Results of parsers -/

namespace Parser

variable {α β : Type} {p q : Parser α} {f : α → Parser β} {P Q : α → Nat → Prop}
  {R : β → Nat → Prop}

/-- All results of the parser have the property. It may speak of a number of operators, and at least
as many have been taken for the result. -/
def Gives (p : Parser α) (P : α → Nat → Prop) : Prop :=
  ∀ tokens a after, p tokens = .ok (a, after) →
    ∃ used, used + Token.operators after ≤ Token.operators tokens ∧ P a used

/-- The parser only takes tokens. -/
def Takes (p : Parser α) : Prop := Gives p fun _ _ => True

namespace Gives

variable {tokens all rest : List Token} {t : Token} {a : α}

theorem mono (h : Gives p P) (hle : ∀ a used, P a used → Q a used) : Gives p Q := by
  intro tokens a after hp
  obtain ⟨used, hused, ha⟩ := h tokens a after hp
  exact ⟨used, hused, hle a used ha⟩

theorem pure {a : α} (h : P a 0) : Gives (pure a : Parser α) P := by
  rintro tokens b after hp
  cases hp
  exact Token.exists_used List.suffix_rfl h

theorem fail (fault : ParseFault) : Gives (fail fault : Parser α) P := by
  rintro tokens a after hp
  cases hp

theorem bind (h : Gives p P) (hf : ∀ a m, P a m → Gives (f a) fun b n => R b (m + n)) :
    Gives (p >>= f) R := by
  intro tokens b after hp
  obtain ⟨a, middle, ha, hb⟩ := bind_eq_ok.mp hp
  obtain ⟨m, hm, ha⟩ := h tokens a middle ha
  obtain ⟨n, hn, hb⟩ := hf a m ha middle b after hb
  exact ⟨m + n, by omega, hb⟩

/-- What goes on behind any result. -/
theorem after (h : Takes p) (hf : ∀ a, Gives (f a) R) : Gives (p >>= f) R := by
  intro tokens b after hp
  obtain ⟨a, middle, ha, hb⟩ := bind_eq_ok.mp hp
  obtain ⟨m, hm, -⟩ := h tokens a middle ha
  obtain ⟨n, hn, hb⟩ := hf a middle b after hb
  exact ⟨n, by omega, hb⟩

theorem ite {c : Prop} [Decidable c] (hp : Gives p P) (hq : Gives q P) :
    Gives (if c then p else q) P := by
  split
  · exact hp
  · exact hq

theorem map {g : α → β} (h : Gives p fun a n => R (g a) n) : Gives (g <$> p) R :=
  bind h fun _ _ ha => pure ha

/-- The tokens before those that are read have been taken, too. -/
theorem behind (h : Gives p P) (hsuffix : tokens <:+ all) (hp : p tokens = .ok (a, rest)) :
    ∃ used, used + Token.operators rest ≤ Token.operators all ∧ P a used := by
  obtain ⟨used, hused, ha⟩ := h tokens a rest hp
  exact ⟨used, Nat.le_trans hused (Token.operators_le_of_suffix hsuffix), ha⟩

/-- An operator before the tokens that are read has been taken, too. -/
theorem behindOperator (h : Gives p fun a n => P a (n + 1)) (ht : t.isOperator = true)
    (hp : p tokens = .ok (a, rest)) :
    ∃ used, used + Token.operators rest ≤ Token.operators (t :: tokens) ∧ P a used := by
  obtain ⟨used, hused, ha⟩ := h tokens a rest hp
  rw [Token.operators_cons ht]
  exact ⟨used + 1, by omega, ha⟩

end Gives

/-! ### Single tokens -/

theorem takes_of_suffix (h : ∀ tokens a after, p tokens = .ok (a, after) → after <:+ tokens) :
    Takes p := by
  intro tokens a after hp
  exact Token.exists_used (h tokens a after hp) trivial

theorem takes_eatSymbol (s : Symbol) : Takes (eatSymbol s) := by
  refine takes_of_suffix fun tokens found after hp => ?_
  unfold eatSymbol at hp
  split at hp
  · split at hp
    · cases hp
      exact List.suffix_cons _ _
    · cases hp
      exact List.suffix_rfl
  · cases hp
    exact List.suffix_rfl

theorem takes_symbol (s : Symbol) : Takes (symbol s) :=
  .after (takes_eatSymbol s) fun _ => .ite (.pure trivial) (.fail _)

/-- A keyword that is an operator is counted where it is found. -/
theorem gives_eatKeyword (k : Keyword) :
    Gives (eatKeyword k) fun found used =>
      found = true → (Token.keyword k).isOperator = true → 1 ≤ used := by
  intro tokens found after hp
  unfold eatKeyword at hp
  split at hp
  · next l rest =>
    split at hp
    · next heq =>
      cases hp
      subst heq
      cases hoperator : (Token.keyword k).isOperator with
      | true => exact Token.exists_used_of_operator hoperator fun _ _ => Nat.le_refl _
      | false => exact Token.exists_used (List.suffix_cons _ _) nofun
    · cases hp
      exact Token.exists_used List.suffix_rfl nofun
  · cases hp
    exact Token.exists_used List.suffix_rfl nofun

theorem takes_eatKeyword (k : Keyword) : Takes (eatKeyword k) :=
  (gives_eatKeyword k).mono fun _ _ _ => trivial

theorem takes_keyword (k : Keyword) : Takes (keyword k) :=
  .after (takes_eatKeyword k) fun _ => .ite (.pure trivial) (.fail _)

theorem takes_name : Takes name := by
  refine takes_of_suffix fun tokens n after hp => ?_
  unfold name at hp
  split at hp
  · cases hp
    exact List.suffix_cons _ _
  · cases hp

theorem takes_finish : Takes finish := by
  refine takes_of_suffix fun tokens n after hp => ?_
  unfold finish at hp
  split at hp
  · cases hp
    exact List.suffix_rfl
  · cases hp

theorem takes_comparison : Takes comparison? := by
  refine takes_of_suffix fun tokens c after hp => ?_
  unfold comparison? at hp
  split at hp <;> cases hp
  all_goals first
    | exact List.suffix_rfl
    | exact List.suffix_cons _ _
    | exact List.suffix_append [_, _] _

/-- A sign is counted where it is found. -/
theorem gives_sign : Gives sign? fun sign used => sign.isSome = true → 1 ≤ used := by
  intro tokens sign after hp
  unfold sign? at hp
  split at hp
  · cases hp
    exact Token.exists_used_of_operator rfl fun _ => Nat.le_refl _
  · cases hp
    exact Token.exists_used_of_operator rfl fun _ => Nat.le_refl _
  · cases hp
    exact Token.exists_used List.suffix_rfl nofun

/-! ### Lists and brackets -/

variable {expression sum : Parser Expr} {bound : Nat}

theorem max_le_min_add {a b m n : Nat} (ha : a ≤ min bound m) (hb : b ≤ min bound n) :
    max a b ≤ min bound (m + n) := by
  omega

/-- The expressions nest no deeper than the bound, nor than there are operators. -/
def GivesWithin (p : Parser Expr) (bound : Nat) : Prop :=
  Gives p fun e used => e.nesting ≤ min bound used

theorem gives_itemsLoop (h : GivesWithin expression bound) (close : Symbol) (fuel : Nat) :
    Gives (itemsLoop expression close fuel)
      fun items used => Expr.nestingItems items ≤ min bound used := by
  induction fuel with
  | zero => exact .fail _
  | succ fuel ih =>
    refine .after (takes_eatSymbol close) fun closed => .ite (.pure (Nat.zero_le _)) ?_
    refine .bind h fun e m he => .after (takes_eatSymbol .comma) fun comma => .ite ?_ ?_
    · exact .bind ih fun items n hitems => .pure (max_le_min_add he hitems)
    · exact .after (takes_symbol close) fun _ => .pure (max_le_min_add he (Nat.zero_le _))

theorem gives_items (h : GivesWithin expression bound) (close : Symbol) :
    Gives (items expression close)
      fun items used => Expr.nestingItems items ≤ min bound used :=
  fun tokens => gives_itemsLoop h close _ tokens

theorem gives_entriesLoop (h : GivesWithin expression bound) (fuel : Nat) :
    Gives (entriesLoop expression fuel)
      fun entries used => Expr.nestingEntries entries ≤ min bound used := by
  induction fuel with
  | zero => exact .fail _
  | succ fuel ih =>
    refine .after (takes_eatSymbol .closeBrace) fun closed => .ite (.pure (Nat.zero_le _)) ?_
    refine .bind h fun key k hkey => .after (takes_symbol .colon) fun _ => .bind h fun e m he => ?_
    refine .after (takes_eatSymbol .comma) fun comma => .ite ?_ ?_
    · refine .bind ih fun entries n hentries => .pure ?_
      rw [Nat.add_zero, ← Nat.add_assoc]
      exact max_le_min_add (max_le_min_add hkey he) hentries
    · refine .after (takes_symbol .closeBrace) fun _ => .pure ?_
      exact max_le_min_add (m := k + m) (n := 0) (max_le_min_add hkey he) (Nat.zero_le _)

theorem gives_parenthesized (h : GivesWithin expression bound) :
    GivesWithin (parenthesized expression) bound := by
  refine .after (takes_eatSymbol .closeParen) fun closed => .ite (.pure (Nat.zero_le _)) ?_
  refine .bind h fun first m hfirst => .after (takes_eatSymbol .closeParen) fun closed => ?_
  refine .ite (.pure hfirst) (.after (takes_symbol .comma) fun _ => ?_)
  refine .bind (gives_items h .closeParen) fun items n hitems => .pure ?_
  exact max_le_min_add hfirst hitems

theorem gives_atom (h : GivesWithin expression bound) : GivesWithin (atom expression) bound := by
  have hlist : GivesWithin (Expr.list <$> items expression .closeBracket) bound :=
    .map (gives_items h .closeBracket)
  have hdict : GivesWithin (Expr.dict <$> entries expression) bound :=
    .map fun tokens => gives_entriesLoop h _ tokens
  intro tokens e after hp
  cases tokens with
  | nil => cases hp
  | cons t tokens =>
    have hsuffix := List.suffix_cons t tokens
    -- constants and names take their token and do not nest
    have hleaf : e.nesting = 0 → after = tokens →
        ∃ used, used + Token.operators after ≤ Token.operators (t :: tokens)
          ∧ e.nesting ≤ min bound used := by
      rintro he rfl
      rw [he]
      exact Token.exists_used hsuffix (Nat.zero_le _)
    cases t with
    | int | float | str | name =>
      cases hp
      exact hleaf rfl rfl
    | keyword k => cases k <;> cases hp <;> exact hleaf rfl rfl
    | symbol s =>
      cases s with
      | openParen => exact (gives_parenthesized h).behind hsuffix hp
      | openBracket => exact hlist.behind hsuffix hp
      | openBrace => exact hdict.behind hsuffix hp
      | _ => cases hp

/-! ### Chains of comparisons -/

theorem gives_linksLoop (h : GivesWithin sum bound) (fuel : Nat) :
    Gives (linksLoop sum fuel) fun links used => Expr.nestingLinks links ≤ min bound used := by
  induction fuel with
  | zero => exact .pure (Nat.zero_le _)
  | succ fuel ih =>
    refine .after takes_comparison fun c => ?_
    cases c with
    | none => exact .pure (Nat.zero_le _)
    | some c =>
      refine .bind h fun e m he => .bind ih fun links n hlinks => .pure ?_
      exact max_le_min_add he hlinks

theorem gives_comparison (h : GivesWithin sum bound) : GivesWithin (comparison sum) bound := by
  have hlinks : Gives (fun tokens => linksLoop sum tokens.length tokens)
      fun links used => Expr.nestingLinks links ≤ min bound used :=
    fun tokens => gives_linksLoop h _ tokens
  refine .bind h fun first m hfirst => .bind hlinks fun links n hlinks => .pure ?_
  split
  · omega
  · exact max_le_min_add hfirst hlinks

end Parser

/-! ## Layers -/

/-- The nestings that the levels left allow, in multiples of their number, above that of what
stands in brackets. -/
def Precedence.width : Precedence → Nat
  | atom => 0
  | sign | access => 1
  | term => 2
  | negation | comparison | sum => 3
  | conjunction => 4
  | conditional | disjunction => 5

namespace Precedence

theorem width_of_not_isChain {place : Precedence} (h : place.isChain = false) :
    place.width = place.next.width := by
  cases place <;> first | rfl | cases h

theorem width_of_isChain {place : Precedence} (h : place.isChain = true) :
    place.width = place.next.width + 1 := by
  cases place <;> first | rfl | cases h

end Precedence

namespace Operator

variable {place : Precedence} {t : Token} {combine : Expr → Expr → Expr}

theorem isOperator (h : Operator place t combine) : t.isOperator = true := by
  cases h with
  | or | and => rfl
  | binary op => cases op <;> rfl

theorem nesting_eq (h : Operator place t combine) (left right : Expr) :
    (combine left right).nesting = max left.nesting right.nesting + 1 := by
  cases h <;> rfl

end Operator

namespace Layer

open TemplateEngine.Parser

/-- The greatest nesting of an expression in brackets where some number of levels is left. -/
def reach : Nat → Nat
  | 0 => 0
  | n + 1 => reach n + 5 * n

/-- The greatest nesting of an expression in a place. -/
def reachAt (place : Precedence) (n : Nat) : Nat := reach n + place.width * n

theorem reachAt_atom (n : Nat) : reachAt .atom n = reach n := by
  simp [reachAt, Precedence.width]

theorem reachAt_succ (place : Precedence) (n : Nat) :
    reachAt place n + place.width ≤ reachAt place (n + 1) := by
  rw [reachAt, reachAt, reach, Nat.mul_succ]
  omega

theorem reachAt_le_succ (place : Precedence) (n : Nat) : reachAt place n ≤ reachAt place (n + 1) :=
  Nat.le_of_add_right_le (reachAt_succ place n)

theorem reachAt_of_isChain {place : Precedence} (h : place.isChain = true) (n : Nat) :
    reachAt place n = reachAt place.next n + n := by
  rw [reachAt, reachAt, place.width_of_isChain h, Nat.succ_mul, Nat.add_assoc]

theorem reachAt_of_not_isChain {place : Precedence} (h : place.isChain = false) (n : Nat) :
    reachAt place n = reachAt place.next n := by
  rw [reachAt, reachAt, place.width_of_not_isChain h]

/-- Nests no deeper than the bound, nor than there are operators, of which `taken` have been taken
before. -/
abbrev Within (bound taken : Nat) (e : Expr) (used : Nat) : Prop :=
  e.nesting ≤ min bound (taken + used)

/-- What the parsers of a layer give nests no deeper than the levels left allow. A chain may grow by
as many links as there are levels, whatever its left part is. -/
structure Bounded (n : Nat) : Prop where
  expression : GivesWithin (ofDepth n).expression (reach n)
  parser : ∀ place : Precedence, GivesWithin ((ofDepth n).parser place) (reachAt place n)
  rest : ∀ (place : Precedence) (left : Expr) (bound taken : Nat), place.isChain = true →
    left.nesting ≤ min bound taken → reachAt place.next n ≤ bound →
      Gives ((ofDepth n).rest place left) (Within (bound + n) taken)

variable {place : Precedence} {n bound taken : Nat} {left : Expr}

/-- A parser that enters a level. -/
theorem gives_enter {α : Type} {p : Layer → Parser α} {P : α → Nat → Prop}
    (h : ∀ m, n = m + 1 → Gives (p (ofDepth m)) P) : Gives (enter (below n) p) P := by
  cases n with
  | zero => exact .fail _
  | succ m => exact h m rfl

/-! ### Links -/

/-- Behind a part of a chain comes an operator, or the chain is complete. -/
theorem rest_cases (hchain : place.isChain = true) (haccess : place ≠ .access) (n : Nat)
    (left : Expr) (tokens : List Token) :
    (ofDepth n).rest place left tokens = .ok (left, tokens)
      ∨ ∃ t more combine, tokens = t :: more ∧ Operator place t combine := by
  rw [ofDepth_eq]
  rcases tokens with _ | ⟨t, more⟩
  · cases place <;> exact .inl rfl
  · cases place with
    | disjunction =>
      cases t with
      | keyword k => cases k <;> first | exact .inr ⟨_, _, _, rfl, .or⟩ | exact .inl rfl
      | _ => exact .inl rfl
    | conjunction =>
      cases t with
      | keyword k => cases k <;> first | exact .inr ⟨_, _, _, rfl, .and⟩ | exact .inl rfl
      | _ => exact .inl rfl
    | sum =>
      cases t with
      | symbol s =>
        cases s with
        | plus => exact .inr ⟨_, _, _, rfl, .binary .add⟩
        | minus => exact .inr ⟨_, _, _, rfl, .binary .sub⟩
        | _ => exact .inl rfl
      | _ => exact .inl rfl
    | term =>
      cases t with
      | symbol s =>
        cases s with
        | star => exact .inr ⟨_, _, _, rfl, .binary .mul⟩
        | slash => exact .inr ⟨_, _, _, rfl, .binary .div⟩
        | slashSlash => exact .inr ⟨_, _, _, rfl, .binary .floorDiv⟩
        | percent => exact .inr ⟨_, _, _, rfl, .binary .mod⟩
        | _ => exact .inl rfl
      | _ => exact .inl rfl
    | access => exact absurd rfl haccess
    | _ => cases hchain

/-- A link of a chain of operators nests one deeper and takes a level. -/
theorem gives_operator (hbelow : ∀ m, n = m + 1 → Bounded m) (hchain : place.isChain = true)
    (haccess : place ≠ .access) (hleft : left.nesting ≤ min bound taken)
    (hbound : reachAt place.next n ≤ bound) :
    Gives ((ofDepth n).rest place left) (Within (bound + n) taken) := by
  intro tokens e after hp
  rcases rest_cases hchain haccess n left tokens with hdone | ⟨t, more, combine, rfl, hop⟩
  · cases hdone.symm.trans hp
    exact Token.exists_used List.suffix_rfl (by omega)
  · rw [hop.rest_eq] at hp
    refine Gives.behindOperator ?_ hop.isOperator hp
    -- the operand and all further links are read with a level less
    refine gives_enter fun m hm => .bind ((hbelow m hm).parser place.next) fun right k hright => ?_
    subst hm
    have hnext : reachAt place.next m ≤ bound :=
      Nat.le_trans (reachAt_le_succ place.next m) hbound
    have hlink : (combine left right).nesting ≤ min (bound + 1) (taken + k + 1) := by
      rw [hop.nesting_eq]
      omega
    have hrest := (hbelow m rfl).rest place _ _ _ hchain hlink (Nat.le_succ_of_le hnext)
    exact hrest.mono fun e used he => by omega

/-- So does an access or a call. -/
theorem gives_access (hbelow : ∀ m, n = m + 1 → Bounded m) (hleft : left.nesting ≤ min bound taken)
    (hbound : reachAt .atom n ≤ bound) :
    Gives ((ofDepth n).rest .access left) (Within (bound + n) taken) := by
  -- what follows an access that nests one deeper
  have hnext : ∀ m k e, n = m + 1 → e.nesting ≤ min (bound + 1) (taken + k + 1) →
      Gives ((ofDepth m).accessRest e) fun e used =>
        e.nesting ≤ min (bound + n) (taken + (k + used + 1)) := by
    rintro m k e rfl he
    have hm : reachAt .atom m ≤ bound + 1 :=
      Nat.le_succ_of_le (Nat.le_trans (reachAt_le_succ .atom m) hbound)
    have hrest := (hbelow m rfl).rest .access e _ _ rfl he hm
    exact hrest.mono fun e used he => by omega
  have hexpression : ∀ m, n = m + 1 → GivesWithin (ofDepth m).expression bound := by
    rintro m rfl
    rw [reachAt_atom, reach] at hbound
    exact (hbelow m rfl).expression.mono fun e used he => by omega
  have hargs : ∀ m, n = m + 1 → Gives (items (ofDepth m).expression .closeParen)
      fun args used => Expr.nestingItems args ≤ min bound used :=
    fun m hm => gives_items (hexpression m hm) .closeParen
  rw [ofDepth_eq]
  intro tokens e after hp
  change accessRestWith (below n) left tokens = .ok (e, after) at hp
  unfold accessRestWith at hp
  split at hp
  · cases n with
    | zero => cases hp
    | succ m =>
      simp only [below] at hp
      refine Gives.behindOperator ?_ rfl hp
      refine .after takes_name fun name => .after (takes_eatSymbol _) fun opens => .ite ?_ ?_
      · refine .bind (hargs m rfl) fun args k hargs => hnext m k _ rfl ?_
        rw [Expr.nesting]
        omega
      · refine (hnext m 0 _ rfl ?_).mono fun e used he => by omega
        rw [Expr.nesting]
        omega
  · cases n with
    | zero => cases hp
    | succ m =>
      simp only [below] at hp
      refine Gives.behindOperator ?_ rfl hp
      refine .bind (hexpression m rfl) fun index k hindex => .after (takes_symbol _) fun _ => ?_
      refine hnext m k _ rfl ?_
      rw [Expr.nesting]
      omega
  · cases n with
    | zero => cases hp
    | succ m =>
      cases left with
      | name f =>
        simp only [below] at hp
        refine Gives.behindOperator ?_ rfl hp
        refine .bind (hargs m rfl) fun args k hargs => hnext m k _ rfl ?_
        rw [Expr.nesting]
        omega
      | _ => cases hp
  · cases hp
    exact Token.exists_used List.suffix_rfl (by omega)

/-! ### A whole layer -/

/-- A chain grows behind its first part. -/
theorem gives_rest (hbelow : ∀ m, n = m + 1 → Bounded m) (hchain : place.isChain = true)
    (hleft : left.nesting ≤ min bound taken) (hbound : reachAt place.next n ≤ bound) :
    Gives ((ofDepth n).rest place left) (Within (bound + n) taken) := by
  by_cases haccess : place = .access
  · subst haccess
    exact gives_access hbelow hleft hbound
  · exact gives_operator hbelow hchain haccess hleft hbound

theorem gives_expression (hbelow : ∀ m, n = m + 1 → Bounded m) :
    GivesWithin (ofDepth n).expression (reach n) := by
  rw [expression_eq]
  refine gives_enter fun m hm => ?_
  subst hm
  exact (hbelow m rfl).parser .conditional

/-- An operand behind a sign or `not` leaves room for it. -/
theorem gives_operand (hbelow : ∀ m, n = m + 1 → Bounded m) (hplace : 0 < place.width) :
    Gives (enter (below n) (·.parser place)) fun e used =>
      e.nesting + 1 ≤ min (reachAt place n) (used + 1) := by
  refine gives_enter fun m hm => ?_
  subst hm
  have hreach := reachAt_succ place m
  exact ((hbelow m rfl).parser place).mono fun e used he => by omega

theorem gives_negation (hbelow : ∀ m, n = m + 1 → Bounded m)
    (hcomparison : GivesWithin ((ofDepth n).parser .comparison) (reachAt .negation n)) :
    GivesWithin ((ofDepth n).parser .negation) (reachAt .negation n) := by
  rw [negation_eq]
  refine .bind (gives_eatKeyword .not) fun found k hfound => ?_
  cases found with
  | true =>
    have hk := hfound rfl rfl
    refine .map ((gives_operand hbelow (by decide)).mono fun e used he => ?_)
    rw [Expr.nesting]
    omega
  | false => exact hcomparison.mono fun e used he => by omega

theorem gives_signed (hbelow : ∀ m, n = m + 1 → Bounded m)
    (haccess : GivesWithin ((ofDepth n).parser .access) (reachAt .sign n)) :
    GivesWithin ((ofDepth n).parser .sign) (reachAt .sign n) := by
  rw [signed_eq]
  refine .bind gives_sign fun found k hfound => ?_
  cases found with
  | some sign =>
    have hk := hfound rfl
    refine .map ((gives_operand hbelow (by decide)).mono fun e used he => ?_)
    rw [Expr.nesting]
    omega
  | none => exact haccess.mono fun e used he => by omega

/-- A conditional expression nests no deeper than its parts. -/
theorem gives_choiceRest (hbelow : ∀ m, n = m + 1 → Bounded m)
    (hdisjunction : GivesWithin ((ofDepth n).parser .disjunction) (reachAt .disjunction n))
    (hleft : left.nesting ≤ min (reachAt .conditional n) taken) :
    Gives ((ofDepth n).choiceRest left) (Within (reachAt .conditional n) taken) := by
  refine .after (takes_eatKeyword _) fun found => .ite ?_ (.pure hleft)
  refine .bind hdisjunction fun condition k hcondition => .after (takes_keyword _) fun _ => ?_
  refine .bind (gives_expression hbelow) fun no m hno => .pure ?_
  have hreach : reach n ≤ reachAt .conditional n := Nat.le_add_right _ _
  have hconditional : reachAt .disjunction n = reachAt .conditional n := rfl
  rw [Within, Expr.nesting]
  omega

/-- A parser gives nothing deeper than the next tighter one, up to the links of its own chain. -/
theorem gives_place (hbelow : ∀ m, n = m + 1 → Bounded m) (place : Precedence) :
    GivesWithin ((ofDepth n).parser place) (reachAt place n) := by
  refine Precedence.descend (P := fun place => GivesWithin ((ofDepth n).parser place)
    (reachAt place n)) ?_ ?_ place.rank_le_atom
  · rw [reachAt_atom]
    exact gives_atom (gives_expression hbelow)
  · intro place hatom _ hnext
    cases hchain : place.isChain with
    | true =>
      rw [parser_eq (Precedence.isInfix_of_isChain hchain), reachAt_of_isChain hchain]
      exact .bind hnext fun left taken hleft => gives_rest hbelow hchain hleft (Nat.le_refl _)
    | false =>
      rw [← reachAt_of_not_isChain hchain] at hnext
      cases place with
      | conditional =>
        rw [parser_eq rfl]
        exact .bind hnext fun yes taken hyes => gives_choiceRest hbelow hnext hyes
      | negation => exact gives_negation hbelow hnext
      | comparison => exact gives_comparison hnext
      | sign => exact gives_signed hbelow hnext
      | atom => exact absurd rfl hatom
      | _ => cases hchain

theorem bounded_of_below (hbelow : ∀ m, n = m + 1 → Bounded m) : Bounded n where
  expression := gives_expression hbelow
  parser := gives_place hbelow
  rest _ _ _ _ := gives_rest hbelow

theorem bounded (n : Nat) : Bounded n := by
  induction n with
  | zero => exact bounded_of_below nofun
  | succ n ih =>
    refine bounded_of_below ?_
    rintro m ⟨⟩
    exact ih

end Layer

/-! ## Whole texts -/

/-- How deep an expression may nest. -/
def Expr.maxNesting : Nat := Layer.reach maxDepth

namespace Parser

variable {α : Type} {p : Parser α} {P : α → Nat → Prop}

/-- What holds of all results holds of what is read from a whole text. -/
theorem Gives.parse (h : Gives p P) {text : Text} {a : α} (hp : p.parse text = .ok a) :
    ∃ used, used ≤ text.operators ∧ P a used := by
  obtain ⟨lexemes, hlexemes, hp⟩ := parse_eq_ok.mp hp
  obtain ⟨used, hused, ha⟩ := h _ a [] hp
  refine ⟨used, ?_, ha⟩
  rw [Text.operators, hlexemes]
  exact Nat.le_of_add_right_le hused

theorem gives_expression : GivesWithin expression Expr.maxNesting :=
  (Layer.bounded Expr.maxDepth).expression

theorem gives_statement :
    Gives statement fun s used => s.value.nesting ≤ min Expr.maxNesting used := by
  have hassign : ∀ target op, Gives (Statement.assign target op <$> expression)
      fun s used => s.value.nesting ≤ min Expr.maxNesting used := fun _ _ => .map gives_expression
  have hevaluate : Gives (Statement.evaluate <$> expression)
      fun s used => s.value.nesting ≤ min Expr.maxNesting used := .map gives_expression
  intro tokens s after hp
  unfold statement at hp
  split at hp
  · split at hp
    · exact (hassign _ _).behind (List.suffix_append [_, _] _) hp
    · exact hevaluate _ s after hp
  · exact hevaluate _ s after hp

theorem gives_statementsLoop (fuel : Nat) : Gives (statementsLoop fuel)
    fun ss used => ∀ s ∈ ss, s.value.nesting ≤ min Expr.maxNesting used := by
  induction fuel with
  | zero => exact .pure nofun
  | succ fuel ih =>
    have hnext : Gives (do
        let s ← statement
        unless ← eatSymbol .semicolon do finish
        return s :: (← statementsLoop fuel))
        fun ss used => ∀ s ∈ ss, s.value.nesting ≤ min Expr.maxNesting used := by
      refine .bind gives_statement fun s m hs => .after (takes_eatSymbol _) fun semicolon => ?_
      have hmore : Gives ((s :: ·) <$> statementsLoop fuel)
          fun ss n => ∀ s ∈ ss, s.value.nesting ≤ min Expr.maxNesting (m + n) := by
        refine .map (ih.mono fun ss n hss => List.forall_mem_cons.mpr ⟨by omega, ?_⟩)
        intro s' hs'
        have hle := hss s' hs'
        omega
      split
      · exact hmore
      · exact .after takes_finish fun _ => hmore
    intro tokens ss after hp
    unfold statementsLoop at hp
    split at hp
    · cases hp
      exact Token.exists_used List.nil_suffix nofun
    · exact hnext _ ss after hp

theorem gives_statements : Gives statements
    fun ss used => ∀ s ∈ ss, s.value.nesting ≤ min Expr.maxNesting used := by
  have hloop : Gives (fun tokens => statementsLoop tokens.length tokens)
      fun ss used => ∀ s ∈ ss, s.value.nesting ≤ min Expr.maxNesting used :=
    fun tokens => gives_statementsLoop _ tokens
  exact .bind hloop fun ss used hss => .ite (.fail _) (.pure hss)

theorem takes_targetsLoop (fuel : Nat) : Takes (targetsLoop fuel) := by
  induction fuel with
  | zero => exact .pure trivial
  | succ fuel ih =>
    refine .after (takes_eatSymbol .comma) fun found => .ite ?_ (.pure trivial)
    exact .after takes_name fun n => .map (ih.mono fun _ _ _ => trivial)

theorem gives_loopHeader :
    Gives loopHeader fun header used => header.items.nesting ≤ min Expr.maxNesting used := by
  have htargets : Takes fun tokens => targetsLoop tokens.length tokens :=
    fun tokens => takes_targetsLoop _ tokens
  refine .after takes_name fun _ => .after htargets fun _ => .after (takes_keyword _) fun _ => ?_
  exact .bind gives_expression fun _ _ he => .pure he

end Parser

namespace Expr

/-- The expressions of a tag: all of its text, the value of a statement, or what a loop goes
through. -/
inductive Accepted (text : Text) : Expr → Prop
  | whole {e : Expr} (h : parse text = .ok e) : Accepted text e
  | value {statements : List Statement} {s : Statement}
      (h : Statement.parseAll text = .ok statements) (hs : s ∈ statements) : Accepted text s.value
  | items {header : LoopHeader} (h : LoopHeader.parse text = .ok header) :
      Accepted text header.items

theorem Accepted.nesting_le {text : Text} {e : Expr} (h : Accepted text e) :
    e.nesting ≤ min maxNesting text.operators := by
  cases h with
  | whole h =>
    obtain ⟨used, hused, he⟩ := Parser.gives_expression.parse h
    omega
  | value h hs =>
    obtain ⟨used, hused, hss⟩ := Parser.gives_statements.parse h
    have he := hss _ hs
    omega
  | items h =>
    obtain ⟨used, hused, he⟩ := Parser.gives_loopHeader.parse h
    omega

/-- **How deep expressions nest.** The expression in a tag nests no deeper than the tag has
operators, and so no deeper than there are levels if it has no more operators than that. Whatever
the tag, it nests no deeper than `maxNesting`. -/
theorem nesting_bounded {text : Text} {e : Expr} (h : Accepted text e) :
    (text.operators ≤ maxDepth → e.nesting ≤ maxDepth)
      ∧ e.nesting ≤ text.operators ∧ e.nesting ≤ maxNesting := by
  have hle := Nat.le_min.mp h.nesting_le
  exact ⟨Nat.le_trans hle.2, hle.2, hle.1⟩

/-- What is in parentheses is one level further in, and the sum is a part of the access. -/
theorem nesting_bounded_parentheses :
    let text : Text := "(x.a+1).b".toList
    ∃ e, Accepted text e ∧ e.nesting = 3 ∧ text.operators = 4 ∧ e.nesting ≤ maxDepth
      ∧ e.nesting ≤ text.operators ∧ e.nesting ≤ maxNesting := by
  intro text
  have hparse : (parse text).map nesting = .ok 3 := by decide +kernel
  have hoperators : text.operators = 4 := by decide +kernel
  obtain ⟨e, he, hnesting⟩ := exists_of_map_eq_ok hparse
  obtain ⟨hlevels, hle⟩ := nesting_bounded (.whole he)
  refine ⟨e, .whole he, hnesting, hoperators, hlevels ?_, hle⟩
  rw [hoperators]
  decide

/-- With one operator more an expression may nest deeper than there are levels: neither of the two
chains here has more links than levels, but the accesses are the first part of the sums. -/
theorem nesting_exceeds_levels :
    let text : Text := 'x' :: (List.replicate 51 ".a".toList).flatten
      ++ (List.replicate 50 " + 1".toList).flatten
    text.operators = maxDepth + 1
      ∧ ∃ e, parse text = .ok e ∧ e.nesting = 101 ∧ maxDepth < e.nesting := by
  intro text
  have hparse : (parse text).map nesting = .ok 101 := by decide +kernel
  obtain ⟨e, he, hnesting⟩ := exists_of_map_eq_ok hparse
  exact ⟨by decide +kernel, e, he, hnesting, by rw [hnesting]; decide⟩

end Expr

end TemplateEngine
