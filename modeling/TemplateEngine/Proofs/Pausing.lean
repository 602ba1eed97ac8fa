import TemplateEngine.Expression.Counter
import TemplateEngine.Proofs.Layers

/-!
# Parsers stop at semicolons

No part of a statement begins or goes on with a semicolon. So what a parser reads off tokens it
reads off them with a semicolon behind, too, whatever follows the semicolon (`Parser.Pauses`).
Each parser that is made of such parsers is one, and so are all parsers of a layer if those of the
layer below are (`Layer.pausing`). The loops have more fuel where there are more tokens, which is
why two parsers are compared (`Parser.PausesOn`).
-/

namespace TemplateEngine

namespace Parser

variable {α β : Type} {p q : Parser α} {f g : α → Parser β} {tokens : List Token}

/-- What the first parser takes off the tokens the second takes off them before a semicolon. -/
def PausesOn (tokens : List Token) (p q : Parser α) : Prop :=
  ∀ a after, p tokens = .ok (a, after) → after <:+ tokens
    ∧ ∀ more, q (tokens ++ .symbol .semicolon :: more)
      = .ok (a, after ++ .symbol .semicolon :: more)

/-- The parser goes no further than to a semicolon. -/
def Pauses (p : Parser α) : Prop := ∀ tokens, PausesOn tokens p p

/-! ## Composition -/

namespace PausesOn

theorem pure (tokens : List Token) (a : α) : PausesOn tokens (pure a) (pure a : Parser α) := by
  rintro b after ⟨⟩
  exact ⟨List.suffix_rfl, fun more => rfl⟩

theorem fail (fault : ParseFault) : PausesOn tokens (fail fault) q := by
  rintro a after ⟨⟩

theorem of_ok {a : α} {after : List Token} (hp : p tokens = .ok (a, after))
    (hafter : after <:+ tokens) (hq : ∀ more, q (tokens ++ .symbol .semicolon :: more)
      = .ok (a, after ++ .symbol .semicolon :: more)) : PausesOn tokens p q := by
  intro b rest hb
  cases hp.symm.trans hb
  exact ⟨hafter, hq⟩

theorem bind (h : PausesOn tokens p q)
    (hf : ∀ a after, p tokens = .ok (a, after) → PausesOn after (f a) (g a)) :
    PausesOn tokens (p >>= f) (q >>= g) := by
  intro b after hb
  obtain ⟨a, middle, ha, hb⟩ := bind_eq_ok.mp hb
  obtain ⟨hmiddle, hq⟩ := h a middle ha
  obtain ⟨hafter, hg⟩ := hf a middle ha b after hb
  refine ⟨hafter.trans hmiddle, fun more => ?_⟩
  rw [bind_ok (hq more), hg]

theorem ite {p' q' : Parser α} {c : Prop} [Decidable c] (h : PausesOn tokens p q)
    (h' : PausesOn tokens p' q') :
    PausesOn tokens (if c then p else p') (if c then q else q') := by
  split
  · exact h
  · exact h'

/-- Behind a token that is taken. -/
theorem cons {t : Token} {p' q' : Parser α} (hp : p (t :: tokens) = p' tokens)
    (hq : ∀ more, q (t :: tokens ++ more) = q' (tokens ++ more)) (h : PausesOn tokens p' q') :
    PausesOn (t :: tokens) p q := by
  intro a after ha
  rw [hp] at ha
  obtain ⟨hafter, hmore⟩ := h a after ha
  refine ⟨hafter.trans (List.suffix_cons t tokens), fun more => ?_⟩
  rw [hq, hmore]

end PausesOn

namespace Pauses

theorem pure (a : α) : Pauses (pure a : Parser α) := fun tokens => .pure tokens a

theorem fail (fault : ParseFault) : Pauses (fail fault : Parser α) := fun _ => .fail fault

theorem bind (h : Pauses p) (hf : ∀ a, Pauses (f a)) : Pauses (p >>= f) :=
  fun tokens => (h tokens).bind fun a after _ => hf a after

theorem ite {c : Prop} [Decidable c] (hp : Pauses p) (hq : Pauses q) :
    Pauses (if c then p else q) :=
  fun tokens => (hp tokens).ite (hq tokens)

theorem map {g : α → β} (h : Pauses p) : Pauses (g <$> p) := bind h fun a => pure (g a)

theorem elim {r : Parser β} {found : Option α} (hnone : Pauses r) (hsome : ∀ a, Pauses (f a)) :
    Pauses (found.elim r f) := by
  cases found with
  | none => exact hnone
  | some a => exact hsome a

/-- A loop that has as much fuel as there are tokens, or some more. -/
theorem of_fuel {loop : Nat → Parser α} {extra : Nat}
    (h : ∀ tokens more, tokens.length + extra ≤ more →
      PausesOn tokens (loop (tokens.length + extra)) (loop more)) :
    Pauses fun tokens => loop (tokens.length + extra) tokens := by
  intro tokens a after ha
  refine ⟨(h tokens _ (Nat.le_refl _) a after ha).1, fun more => ?_⟩
  exact (h tokens _ (by simp) a after ha).2 more

end Pauses

/-! ## Single tokens -/

/-- A parser that looks at one token and takes it, leaves it or fails. -/
theorem pauses_of_head
    (hend : (∃ a, p [] = .ok (a, []) ∧ ∀ more, p (.symbol .semicolon :: more)
      = .ok (a, .symbol .semicolon :: more)) ∨ ∃ e, p [] = .error e)
    (hcons : ∀ t, (∃ a, ∀ rest, p (t :: rest) = .ok (a, rest))
      ∨ (∃ a, ∀ rest, p (t :: rest) = .ok (a, t :: rest)) ∨ ∀ rest, ∃ e, p (t :: rest) = .error e) :
    Pauses p := by
  intro tokens b after hb
  rcases tokens with _ | ⟨t, rest⟩
  · obtain ⟨a, hnil, hmore⟩ | ⟨e, hnil⟩ := hend
    · cases hnil.symm.trans hb
      exact ⟨List.suffix_rfl, hmore⟩
    · cases hnil.symm.trans hb
  · obtain ⟨a, ht⟩ | ⟨a, ht⟩ | ht := hcons t
    · cases (ht rest).symm.trans hb
      exact ⟨List.suffix_cons _ _, fun more => ht _⟩
    · cases (ht rest).symm.trans hb
      exact ⟨List.suffix_rfl, fun more => ht _⟩
    · obtain ⟨e, he⟩ := ht rest
      cases he.symm.trans hb

theorem pauses_eatSymbol {s : Symbol} (hs : s ≠ .semicolon) : Pauses (eatSymbol s) := by
  refine pauses_of_head (.inl ⟨false, rfl, fun more => eatSymbol_of_ne (by simpa using hs.symm)⟩) ?_
  intro t
  by_cases ht : t = .symbol s
  · subst ht
    exact .inl ⟨true, eatSymbol_cons s⟩
  · exact .inr (.inl ⟨false, fun rest => eatSymbol_of_ne (by simpa using ht)⟩)

/-- A symbol is taken if it is next, and else nothing is. -/
theorem eq_of_eatSymbol {s : Symbol} {found : Bool} {rest : List Token}
    (h : eatSymbol s tokens = .ok (found, rest)) :
    tokens = if found then .symbol s :: rest else rest := by
  unfold eatSymbol at h
  split at h
  · split at h
    · next heq =>
      cases h
      rw [heq]
      rfl
    · cases h
      rfl
  · cases h
    rfl

theorem pauses_eatKeyword (k : Keyword) : Pauses (eatKeyword k) := by
  refine pauses_of_head (.inl ⟨false, rfl, fun more => rfl⟩) fun t => ?_
  by_cases ht : t = .keyword k
  · subst ht
    exact .inl ⟨true, eatKeyword_cons k⟩
  · exact .inr (.inl ⟨false, fun rest => eatKeyword_of_ne (by simpa using ht)⟩)

theorem pauses_symbol {s : Symbol} (hs : s ≠ .semicolon) : Pauses (symbol s) :=
  .bind (pauses_eatSymbol hs) fun _ => .ite (.pure ()) (.fail _)

theorem pauses_keyword (k : Keyword) : Pauses (keyword k) :=
  .bind (pauses_eatKeyword k) fun _ => .ite (.pure ()) (.fail _)

theorem pauses_name : Pauses name := by
  refine pauses_of_head (.inr ⟨_, rfl⟩) fun t => ?_
  cases t with
  | name n => exact .inl ⟨n, fun rest => rfl⟩
  | _ => exact .inr (.inr fun rest => ⟨_, rfl⟩)

theorem pauses_comparison : Pauses comparison? := by
  intro tokens c after h
  have hsuffix : after <:+ tokens := by
    unfold comparison? at h
    split at h <;> cases h
    all_goals first
      | exact List.suffix_rfl
      | exact List.suffix_cons _ _
      | exact List.suffix_append [_, _] _
  refine ⟨hsuffix, fun more => ?_⟩
  rcases tokens with _ | ⟨t, _ | ⟨t', tokens⟩⟩
  · cases h
    rfl
  · cases t with
    | keyword k => cases k <;> cases h <;> rfl
    | symbol s => cases s <;> cases h <;> rfl
    | _ => cases h; rfl
  · cases t with
    | keyword k =>
      cases k with
      -- these two look at one more token
      | not | is =>
        cases t' with
        | keyword k' => cases k' <;> cases h <;> rfl
        | _ => cases h; rfl
      | _ => cases h; rfl
    | symbol s => cases s <;> cases h <;> rfl
    | _ => cases h; rfl

/-- A comparison that is found has been taken. -/
theorem length_lt_of_comparison {c : Comparison} {after : List Token}
    (h : comparison? tokens = .ok (some c, after)) : after.length < tokens.length := by
  unfold comparison? at h
  split at h <;> cases h
  all_goals
    simp only [List.length_cons]
    omega

theorem pauses_sign : Pauses sign? := by
  refine pauses_of_head (.inl ⟨none, rfl, fun more => rfl⟩) fun t => ?_
  cases t with
  | symbol s =>
    cases s with
    | minus | plus => exact .inl ⟨_, fun rest => rfl⟩
    | _ => exact .inr (.inl ⟨none, fun rest => rfl⟩)
  | _ => exact .inr (.inl ⟨none, fun rest => rfl⟩)

theorem pauses_sumOp : Pauses sumOp? := by
  refine pauses_of_head (.inl ⟨none, rfl, fun more => rfl⟩) fun t => ?_
  cases t with
  | symbol s =>
    cases s with
    | minus | plus => exact .inl ⟨_, fun rest => rfl⟩
    | _ => exact .inr (.inl ⟨none, fun rest => rfl⟩)
  | _ => exact .inr (.inl ⟨none, fun rest => rfl⟩)

theorem pauses_termOp : Pauses termOp? := by
  refine pauses_of_head (.inl ⟨none, rfl, fun more => rfl⟩) fun t => ?_
  cases t with
  | symbol s =>
    cases s with
    | star | slash | slashSlash | percent => exact .inl ⟨_, fun rest => rfl⟩
    | _ => exact .inr (.inl ⟨none, fun rest => rfl⟩)
  | _ => exact .inr (.inl ⟨none, fun rest => rfl⟩)

theorem pauses_operator (place : Precedence) : Pauses (operator? place) := by
  cases place with
  | disjunction => exact .bind (pauses_eatKeyword .or) fun found => .pure _
  | conjunction => exact .bind (pauses_eatKeyword .and) fun found => .pure _
  | sum => exact .bind pauses_sumOp fun op => .pure _
  | term => exact .bind pauses_termOp fun op => .pure _
  | _ => exact .pure none

theorem pauses_target : Pauses target? := by
  intro tokens found after h
  unfold target? at h
  split at h
  · next target s rest =>
    cases hs : assignment? s with
    | none =>
      simp only [hs] at h
      cases h
      exact ⟨List.suffix_rfl, fun more => by simp [target?, hs]⟩
    | some op =>
      simp only [hs] at h
      cases h
      exact ⟨List.suffix_append [_, _] _, fun more => by simp [target?, hs]⟩
  · next hnot =>
    cases h
    refine ⟨List.suffix_rfl, fun more => ?_⟩
    rcases tokens with _ | ⟨t, _ | ⟨t', tokens⟩⟩
    · rfl
    · cases t <;> rfl
    · cases t with
      | name target =>
        cases t' with
        | symbol s => exact absurd rfl (hnot target s tokens)
        | _ => rfl
      | _ => rfl

/-! ## Lists and brackets -/

section

variable {expression sum : Parser Expr} {close : Symbol}

theorem pausesOn_itemsLoop (h : Pauses expression) (hclose : close ≠ .semicolon)
    {fuel more : Nat} (hle : fuel ≤ more) (tokens : List Token) :
    PausesOn tokens (itemsLoop expression close fuel) (itemsLoop expression close more) := by
  induction fuel generalizing more tokens with
  | zero => exact .fail _
  | succ fuel ih =>
    obtain ⟨more, rfl⟩ := Nat.exists_eq_add_one_of_ne_zero (Nat.ne_zero_of_lt hle)
    refine .bind (pauses_eatSymbol hclose tokens) fun closed after _ => .ite (.pure _ _) ?_
    refine .bind (h after) fun e after _ => ?_
    refine .bind (pauses_eatSymbol (by decide) after) fun comma after _ => .ite ?_ ?_
    · exact .bind (ih (Nat.le_of_succ_le_succ hle) after) fun items after _ => .pure _ _
    · exact .bind (pauses_symbol hclose after) fun _ after _ => .pure _ _

theorem pauses_items (h : Pauses expression) (hclose : close ≠ .semicolon) :
    Pauses (items expression close) :=
  .of_fuel fun tokens _ hle => pausesOn_itemsLoop h hclose hle tokens

theorem pausesOn_entriesLoop (h : Pauses expression) {fuel more : Nat} (hle : fuel ≤ more)
    (tokens : List Token) :
    PausesOn tokens (entriesLoop expression fuel) (entriesLoop expression more) := by
  induction fuel generalizing more tokens with
  | zero => exact .fail _
  | succ fuel ih =>
    obtain ⟨more, rfl⟩ := Nat.exists_eq_add_one_of_ne_zero (Nat.ne_zero_of_lt hle)
    refine .bind (pauses_eatSymbol (by decide) tokens) fun closed after _ => .ite (.pure _ _) ?_
    refine .bind (h after) fun key after _ => ?_
    refine .bind (pauses_symbol (by decide) after) fun _ after _ => ?_
    refine .bind (h after) fun value after _ => ?_
    refine .bind (pauses_eatSymbol (by decide) after) fun comma after _ => .ite ?_ ?_
    · exact .bind (ih (Nat.le_of_succ_le_succ hle) after) fun entries after _ => .pure _ _
    · exact .bind (pauses_symbol (by decide) after) fun _ after _ => .pure _ _

theorem pauses_entries (h : Pauses expression) : Pauses (entries expression) :=
  .of_fuel fun tokens _ hle => pausesOn_entriesLoop h hle tokens

theorem pauses_parenthesized (h : Pauses expression) : Pauses (parenthesized expression) := by
  refine .bind (pauses_eatSymbol (by decide)) fun closed => .ite (.pure _) ?_
  refine .bind h fun first => .bind (pauses_eatSymbol (by decide)) fun closed => ?_
  refine .ite (.pure first) (.bind (pauses_symbol (by decide)) fun _ => ?_)
  exact .bind (pauses_items h (by decide)) fun items => .pure _

theorem pauses_atom (h : Pauses expression) : Pauses (atom expression) := by
  intro tokens
  rcases tokens with _ | ⟨t, tokens⟩
  · rintro e after ⟨⟩
  · cases t with
    | int | float | str | name =>
      rintro e after ⟨⟩
      exact ⟨List.suffix_cons _ _, fun more => rfl⟩
    | keyword k =>
      rintro e after he
      cases k <;> cases he <;> exact ⟨List.suffix_cons _ _, fun more => rfl⟩
    | symbol s =>
      cases s with
      | openParen => exact .cons rfl (fun more => rfl) (pauses_parenthesized h tokens)
      | openBracket =>
        exact .cons rfl (fun more => rfl) ((pauses_items h (by decide)).map tokens)
      | openBrace => exact .cons rfl (fun more => rfl) ((pauses_entries h).map tokens)
      | _ => rintro e after ⟨⟩

/-- With a fuel for every token the links come to an end. -/
theorem pausesOn_linksLoop (h : Pauses sum) {fuel more : Nat} (hle : fuel ≤ more)
    {tokens : List Token} (hfuel : tokens.length ≤ fuel) :
    PausesOn tokens (linksLoop sum fuel) (linksLoop sum more) := by
  induction fuel generalizing more tokens with
  | zero =>
    obtain rfl := List.length_eq_zero_iff.mp (Nat.le_zero.mp hfuel)
    rintro links after ⟨⟩
    exact ⟨List.suffix_rfl, fun later => linksLoop_of_ends (Token.ends_cons.mpr (by decide)) more⟩
  | succ fuel ih =>
    obtain ⟨more, rfl⟩ := Nat.exists_eq_add_one_of_ne_zero (Nat.ne_zero_of_lt hle)
    refine .bind (pauses_comparison tokens) fun c after hc => ?_
    cases c with
    | none => exact .pure _ _
    | some c =>
      have hless := length_lt_of_comparison hc
      refine .bind (h after) fun e rest he => ?_
      have hrest := (h after e rest he).1.length_le
      exact .bind (ih (by omega) (by omega)) fun links last _ => .pure _ _

theorem pauses_comparisons (h : Pauses sum) : Pauses (comparison sum) :=
  have hlinks : Pauses fun tokens => linksLoop sum tokens.length tokens :=
    @Pauses.of_fuel _ (linksLoop sum) 0 fun _ _ hle => pausesOn_linksLoop h hle (Nat.le_refl _)
  .bind h fun _ => .bind hlinks fun _ => .pure _

end

end Parser

/-! ## Layers -/

namespace Layer

open TemplateEngine.Parser

variable {inner : Option Layer} {n : Nat} {place : Precedence}

/-- The parsers of a layer stop at semicolons. -/
structure Pausing (n : Nat) : Prop where
  expression : Pauses (ofDepth n).expression
  parser : ∀ place : Precedence, Pauses ((ofDepth n).parser place)
  rest : ∀ (place : Precedence) (left : Expr), place.isChain = true →
    Pauses ((ofDepth n).rest place left)

/-- A chain goes on with an operator, and the operand behind it is read a level further in. -/
theorem rest_eq (hchain : place.isChain = true) (haccess : place ≠ .access) (n : Nat)
    (left : Expr) :
    (ofDepth n).rest place left = operator? place >>= fun op => op.elim (pure left) fun combine =>
      enter (below n) fun layer => layer.parser place.next >>= fun right =>
        layer.rest place (combine left right) := by
  rw [ofDepth_eq]
  cases place with
  | disjunction | conjunction =>
    rw [operator?, bind_assoc]
    refine congrArg (eatKeyword _ >>= ·) (funext fun found => ?_)
    cases found <;> rfl
  | sum | term =>
    rw [operator?, bind_assoc]
    refine congrArg (_ >>= ·) (funext fun op => ?_)
    cases op <;> rfl
  | access => exact absurd rfl haccess
  | _ => cases hchain

/-- A parser that enters a level. -/
theorem pauses_enter {α : Type} {p : Layer → Parser α}
    (h : ∀ m, n = m + 1 → Pauses (p (ofDepth m))) : Pauses (enter (below n) p) := by
  cases n with
  | zero => exact .fail _
  | succ m => exact h m rfl

/-- So is a chain of accesses, whose links begin with one of three symbols. -/
theorem pauses_accessRest (hbelow : ∀ m, n = m + 1 → Pausing m) (e : Expr) :
    Pauses ((ofDepth n).accessRest e) := by
  have hitems : ∀ m, n = m + 1 → Pauses (items (ofDepth m).expression .closeParen) :=
    fun m hm => pauses_items (hbelow m hm).expression (by decide)
  have hnext : ∀ m, n = m + 1 → ∀ e, Pauses ((ofDepth m).accessRest e) :=
    fun m hm e => (hbelow m hm).rest .access e rfl
  rw [ofDepth_eq]
  change Pauses (accessRestWith (below n) e)
  intro tokens
  rcases tokens with _ | ⟨t, tokens⟩
  · exact .of_ok rfl List.suffix_rfl fun more => rfl
  cases t with
  | symbol s =>
    cases s with
    | dot =>
      cases n with
      | zero => rintro e after ⟨⟩
      | succ m =>
        have hlink : Pauses (do
            let n ← name
            if ← eatSymbol .openParen then
              let args ← items (ofDepth m).expression .closeParen
              (ofDepth m).accessRest (.method e n args)
            else (ofDepth m).accessRest (.dot e n)) := by
          refine .bind pauses_name fun n => .bind (pauses_eatSymbol (by decide)) fun opens => ?_
          exact .ite (.bind (hitems m rfl) fun args => hnext m rfl _) (hnext m rfl _)
        exact .cons rfl (fun more => rfl) (hlink tokens)
    | openBracket =>
      cases n with
      | zero => rintro e after ⟨⟩
      | succ m =>
        have hlink : Pauses (do
            let index ← (ofDepth m).expression
            symbol .closeBracket
            (ofDepth m).accessRest (.subscript e index)) :=
          .bind (hbelow m rfl).expression fun index =>
            .bind (pauses_symbol (by decide)) fun _ => hnext m rfl _
        exact .cons rfl (fun more => rfl) (hlink tokens)
    | openParen =>
      cases n with
      | zero => rintro e after ⟨⟩
      | succ m =>
        cases e with
        | name f =>
          have hlink : Pauses (do
              let args ← items (ofDepth m).expression .closeParen
              (ofDepth m).accessRest (.call f args)) :=
            .bind (hitems m rfl) fun args => hnext m rfl _
          exact .cons rfl (fun more => rfl) (hlink tokens)
        | _ => rintro e after ⟨⟩
    | _ => exact .of_ok rfl List.suffix_rfl fun more => rfl
  | _ => exact .of_ok rfl List.suffix_rfl fun more => rfl

theorem pauses_choiceRest (hexpression : Pauses (ofDepth n).expression)
    (hdisjunction : Pauses ((ofDepth n).parser .disjunction)) (yes : Expr) :
    Pauses ((ofDepth n).choiceRest yes) := by
  refine .bind (pauses_eatKeyword .ifThen) fun found => .ite ?_ (.pure yes)
  refine .bind hdisjunction fun condition => .bind (pauses_keyword .otherwise) fun _ => ?_
  exact .bind hexpression fun no => .pure _

/-- A chain of operators goes on in the layer below. -/
theorem pauses_operatorRest (hbelow : ∀ m, n = m + 1 → Pausing m) (hchain : place.isChain = true)
    (haccess : place ≠ .access) (left : Expr) : Pauses ((ofDepth n).rest place left) := by
  rw [rest_eq hchain haccess]
  refine .bind (pauses_operator place) fun op => .elim (.pure left) fun combine => ?_
  exact pauses_enter fun m hm => .bind ((hbelow m hm).parser place.next) fun right =>
    (hbelow m hm).rest place _ hchain

theorem pauses_expression (hbelow : ∀ m, n = m + 1 → Pausing m) :
    Pauses (ofDepth n).expression := by
  rw [expression_eq]
  exact pauses_enter fun m hm => (hbelow m hm).parser .conditional

/-- A parser stops at semicolons if the next tighter one does. -/
theorem pauses_place (hbelow : ∀ m, n = m + 1 → Pausing m) (place : Precedence) :
    Pauses ((ofDepth n).parser place) := by
  refine Precedence.descend (P := fun place => Pauses ((ofDepth n).parser place)) ?_ ?_
    place.rank_le_atom
  · exact pauses_atom (pauses_expression hbelow)
  · intro place hatom _ hnext
    cases place with
    | conditional =>
      rw [parser_eq rfl]
      exact .bind hnext fun yes => pauses_choiceRest (pauses_expression hbelow) hnext yes
    | disjunction | conjunction | sum | term =>
      rw [parser_eq rfl]
      exact .bind hnext fun left => pauses_operatorRest hbelow rfl (by decide) left
    | negation =>
      rw [negation_eq]
      refine .bind (pauses_eatKeyword .not) fun found => .ite (.map (pauses_enter ?_)) hnext
      exact fun m hm => (hbelow m hm).parser .negation
    | comparison => exact pauses_comparisons hnext
    | sign =>
      rw [signed_eq]
      refine .bind pauses_sign fun found => .elim hnext fun sign => .map (pauses_enter ?_)
      exact fun m hm => (hbelow m hm).parser .sign
    | access =>
      rw [parser_eq rfl]
      exact .bind hnext fun e => pauses_accessRest hbelow e
    | atom => exact absurd rfl hatom

theorem pausing_of_below (hbelow : ∀ m, n = m + 1 → Pausing m) : Pausing n where
  expression := pauses_expression hbelow
  parser := pauses_place hbelow
  rest place left hchain := by
    by_cases haccess : place = .access
    · subst haccess
      exact pauses_accessRest hbelow left
    · exact pauses_operatorRest hbelow hchain haccess left

/-- No parser goes further than to a semicolon. -/
theorem pausing (n : Nat) : Pausing n := by
  induction n with
  | zero => exact pausing_of_below nofun
  | succ n ih =>
    refine pausing_of_below ?_
    rintro m ⟨⟩
    exact ih

end Layer

/-! ## Statements -/

namespace Parser

theorem pauses_expression : Pauses expression := (Layer.pausing Expr.maxDepth).expression

/-- A statement is an assignment if a target is next, else an expression. -/
theorem statement_eq : statement = target? >>= fun found =>
    found.elim (Statement.evaluate <$> expression) fun assigned =>
      Statement.assign assigned.1 assigned.2 <$> expression := by
  funext tokens
  unfold statement
  split
  · next target s rest =>
    cases hs : assignment? s with
    | none =>
      have htarget : target? (.name target :: .symbol s :: rest)
          = .ok (none, .name target :: .symbol s :: rest) := by
        simp only [target?, hs]
      rw [bind_ok htarget]
      rfl
    | some op =>
      have htarget : target? (.name target :: .symbol s :: rest)
          = .ok (some (target, op), rest) := by
        simp only [target?, hs]
      rw [bind_ok htarget]
      rfl
  · next hnot =>
    have htarget : target? tokens = .ok (none, tokens) := by
      unfold target?
      split
      · next target s rest => exact (hnot target s rest rfl).elim
      · rfl
    rw [bind_ok htarget]
    rfl

theorem pauses_statement : Pauses statement := by
  rw [statement_eq]
  exact .bind pauses_target fun found =>
    .elim (.map pauses_expression) fun assigned => .map pauses_expression

theorem statementsLoop_cons (fuel : Nat) (t : Token) (tokens : List Token) :
    statementsLoop (fuel + 1) (t :: tokens) = (statement >>= fun s => eatSymbol .semicolon >>=
      fun found => if found then (s :: ·) <$> statementsLoop fuel
        else finish >>= fun _ => (s :: ·) <$> statementsLoop fuel) (t :: tokens) :=
  rfl

end Parser

end TemplateEngine
