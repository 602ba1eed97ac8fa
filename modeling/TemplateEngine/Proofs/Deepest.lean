import Mathlib.Logic.Function.Iterate
import TemplateEngine.Proofs.Nesting
import TemplateEngine.Proofs.Parsing

/-!
# The deepest expressions

The bound on the nesting of expressions is attained. In each layer an expression nests as deeply as
its levels allow if all of them are spent on the links of a chain, its first part is such a chain of
a tighter precedence, and the innermost one begins with such an expression of the layer below in
parentheses (`Layer.exists_deepest`). A text with the deepest of all is its tokens written down
(`Expr.exists_parse_nesting_eq`).
-/

namespace TemplateEngine

namespace Layer

open TemplateEngine.Parser

variable {place : Precedence} {n : Nat}

/-! ## Links -/

/-- Behind any left part the tokens are read as a further link of a chain, which takes a level. -/
structure IsLink (place : Precedence) (tokens : List Token) (link : Expr → Expr) : Prop where
  plain : ∀ t ∈ tokens, t.Plain
  ends : ∀ after, Token.Ends place.next (tokens ++ after)
  nesting : ∀ e : Expr, (link e).nesting = e.nesting + 1
  rest : ∀ n e after, Token.Ends place.next after →
    (ofDepth (n + 1)).rest place e (tokens ++ after) = (ofDepth n).rest place (link e) after

/-- A name is read in each place. -/
theorem reads_name (x : Text) (n : Nat) (place : Precedence) {after : List Token}
    (hends : Token.Ends place after) :
    (ofDepth n).parser place (.name x :: after) = .ok (.name x, after) := by
  have hatom : Reads ((ofDepth n).parser .atom) 2 [.name x] (.name x) after := .inl rfl
  have hread := reads_of_tighter hatom ⟨_, _, rfl, Nat.le_refl _⟩ hends place.rank_le_atom
  obtain h | ⟨hlength, -⟩ := hread
  · exact h
  · exact absurd hlength (by decide : ¬ 2 ≤ 1)

theorem plain_x : (Token.name ['x']).Plain := by
  change Text.Identifier ['x']
  decide +kernel

theorem isLink_operator {t : Token} {combine : Expr → Expr → Expr}
    (h : Operator place t combine) (ht : t.Plain) :
    IsLink place [t, .name ['x']] (combine · (.name ['x'])) where
  plain := by simp [ht, plain_x]
  ends after := by
    refine Token.ends_cons.mpr ?_
    rw [h.binding_eq, Precedence.rank_next (Precedence.ne_atom_of_isChain h.isChain)]
    exact Nat.lt_succ_self _
  nesting e := by
    rw [h.nesting_eq, Expr.nesting, Nat.max_zero]
  rest n e after hends := by
    change (ofDepth (n + 1)).rest place e (t :: .name ['x'] :: after) = _
    rw [h.rest_eq]
    exact bind_ok (reads_name _ n _ hends)

theorem isLink_dot : IsLink .access [.symbol .dot, .name ['x']] (.dot · ['x']) where
  plain := by simp [plain_x]
  ends after := Token.ends_cons.mpr (by decide)
  nesting e := rfl
  rest n e after hends := by
    rw [ofDepth_eq]
    exact bind_ok (eatSymbol_of_ne (hends.ne (Nat.le_refl _)))

/-- There are links for all chains. -/
theorem exists_isLink (h : place.isChain = true) : ∃ tokens link, IsLink place tokens link := by
  cases place with
  | disjunction => exact ⟨_, _, isLink_operator .or trivial⟩
  | conjunction => exact ⟨_, _, isLink_operator .and trivial⟩
  | sum => exact ⟨_, _, isLink_operator (.binary .add) trivial⟩
  | term => exact ⟨_, _, isLink_operator (.binary .mul) trivial⟩
  | access => exact ⟨_, _, isLink_dot⟩
  | _ => cases h

namespace IsLink

variable {tokens after : List Token} {link : Expr → Expr}

theorem nesting_iterate (h : IsLink place tokens link) (k : Nat) (e : Expr) :
    (link^[k] e).nesting = e.nesting + k := by
  induction k generalizing e with
  | zero => rfl
  | succ k ih => rw [Function.iterate_succ_apply, ih, h.nesting, Nat.add_right_comm, Nat.add_assoc]

theorem ends_replicate (h : IsLink place tokens link) (hends : Token.Ends place.next after)
    (k : Nat) : Token.Ends place.next ((List.replicate k tokens).flatten ++ after) := by
  cases k with
  | zero => exact hends
  | succ k =>
    rw [List.replicate_succ, List.flatten_cons, List.append_assoc]
    exact h.ends _

/-- Links are read one after the other, each a level further in. -/
theorem rest_replicate (h : IsLink place tokens link) (hends : Token.Ends place.next after)
    (k n : Nat) (e : Expr) :
    (ofDepth (n + k)).rest place e ((List.replicate k tokens).flatten ++ after)
      = (ofDepth n).rest place (link^[k] e) after := by
  induction k generalizing e with
  | zero => rfl
  | succ k ih =>
    rw [List.replicate_succ, List.flatten_cons, List.append_assoc, ← Nat.add_assoc,
      h.rest _ _ _ (h.ends_replicate hends k), ih, Function.iterate_succ_apply]

end IsLink

/-! ## All chains of a layer -/

/-- The parser reads the tokens as an expression that nests as deeply as its layer allows. -/
structure Deepest (place : Precedence) (n : Nat) (tokens : List Token) (e : Expr) : Prop where
  begins : Token.Begins .atom tokens
  plain : ∀ t ∈ tokens, t.Plain
  nesting : e.nesting = reachAt place n
  reads : ∀ after, Token.Ends place after →
    (ofDepth n).parser place (tokens ++ after) = .ok (e, after)

namespace Deepest

variable {tokens : List Token} {e : Expr}

/-- All levels of the layer are spent on the links of a chain. -/
theorem chain (h : Deepest place.next n tokens e) (hchain : place.isChain = true) :
    ∃ tokens e, Deepest place n tokens e := by
  obtain ⟨linked, link, hlink⟩ := exists_isLink hchain
  refine ⟨tokens ++ (List.replicate n linked).flatten, link^[n] e, ?_⟩
  constructor
  · exact h.begins.append
  · simp only [List.mem_append, List.mem_flatten, List.mem_replicate]
    rintro t (ht | ⟨_, ⟨-, rfl⟩, ht⟩)
    · exact h.plain t ht
    · exact hlink.plain t ht
  · rw [hlink.nesting_iterate, h.nesting, reachAt_of_isChain hchain]
  · intro after hends
    have hnext : Token.Ends place.next after := hends.mono place.rank_le_next
    have hrest := hlink.rest_replicate hnext n 0 e
    rw [Nat.zero_add] at hrest
    rw [parser_eq (Precedence.isInfix_of_isChain hchain), List.append_assoc,
      bind_ok (h.reads _ (hlink.ends_replicate hnext n)), hrest, rest_of_ends hends]

/-- Where there is no chain the expression is read as it is. -/
theorem loosen (h : Deepest place.next n tokens e) (hatom : place ≠ .atom)
    (hchain : place.isChain = false) : Deepest place n tokens e where
  begins := h.begins
  plain := h.plain
  nesting := by rw [h.nesting, reachAt_of_not_isChain hchain]
  reads after hends := by
    have hnext : Reads ((ofDepth n).parser place.next) (tokens.length + 1) tokens e after :=
      .inl (h.reads after (hends.mono place.rank_le_next))
    have hbegins := h.begins.mono place.next.rank_le_atom
    obtain hread | ⟨hlength, -⟩ := reads_loosen hatom hnext hbegins hends
    · exact hread
    · exact absurd hlength (Nat.not_succ_le_self _)

/-- A level is spent on parentheses. -/
theorem parenthesized (h : Deepest .conditional n tokens e) :
    Deepest .atom (n + 1) (.symbol .openParen :: tokens ++ [.symbol .closeParen]) e where
  begins := ⟨_, _, rfl, Nat.le_refl _⟩
  plain := by simpa [or_imp, forall_and] using h.plain
  nesting := by
    rw [h.nesting, reachAt_atom]
    rfl
  reads after _ := by
    have hclose : Token.Ends .conditional (.symbol .closeParen :: after) :=
      Token.ends_cons.mpr (by decide)
    have hopen : eatSymbol .closeParen (tokens ++ .symbol .closeParen :: after)
        = .ok (false, tokens ++ .symbol .closeParen :: after) :=
      eatSymbol_of_ne (h.begins.ne (by decide))
    rw [ofDepth_eq, List.append_assoc]
    change Parser.parenthesized (ofDepth n).conditional (tokens ++ .symbol .closeParen :: after) = _
    refine (bind_ok hopen).trans ((bind_ok (h.reads _ hclose)).trans ?_)
    exact bind_ok (eatSymbol_cons .closeParen after)

end Deepest

/-- The bound on the nesting is attained for all precedences in all layers. -/
theorem exists_deepest (n : Nat) (place : Precedence) : ∃ tokens e, Deepest place n tokens e := by
  induction n generalizing place with
  | zero =>
    refine ⟨[.name ['x']], .name ['x'], ⟨_, _, rfl, Nat.le_refl _⟩, ?_, rfl, ?_⟩
    · exact List.forall_mem_singleton.mpr plain_x
    · exact fun after hends => reads_name _ _ _ hends
  | succ n ih =>
    refine Precedence.descend (P := fun place => ∃ tokens e, Deepest place (n + 1) tokens e)
      ?_ ?_ place.rank_le_atom
    · obtain ⟨tokens, e, h⟩ := ih .conditional
      exact ⟨_, _, h.parenthesized⟩
    · rintro place hatom - ⟨tokens, e, h⟩
      cases hchain : place.isChain with
      | true => exact h.chain hchain
      | false => exact ⟨_, _, h.loosen hatom hchain⟩

end Layer

/-! ## Whole texts -/

namespace Expr

/-- Some text is accepted whose expression nests as deeply as any. -/
theorem exists_parse_nesting_eq : ∃ text e, parse text = .ok e ∧ e.nesting = maxNesting := by
  obtain ⟨tokens, e, h⟩ := Layer.exists_deepest 99 .conditional
  have hreads : Parser.Reads Parser.expression (tokens.length + 1) tokens e [] :=
    .inl (h.reads [] (Token.ends_nil _))
  refine ⟨Token.write tokens, e, ?_, h.nesting⟩
  obtain hparse | ⟨hlength, -⟩ := parse_of_reads hreads (Token.spelled_write tokens) h.plain
  · exact hparse
  · exact absurd hlength (Nat.not_succ_le_self _)

/-- It is far more than there are levels. -/
example : maxNesting = 24750 := by decide

end Expr

end TemplateEngine
