import TemplateEngine.Proofs.Pausing
import TemplateEngine.Proofs.Results

/-!
# The counter is put back

Counting levels comes to the same as reading with as many layers as levels are left: the same
result or error, and then the counter is what it was before (`Counted.Leads`). So no parser counts
what another has nested, and no parser goes on for ever.
-/

namespace TemplateEngine

namespace Counted

open TemplateEngine.Parser

variable {α β : Type} {c : Nat → Counted α} {p : Parser α} {f : Nat → α → Counted β}
  {g : α → Parser β} {start middle stop : Nat} {tokens : List Token}

/-! ## Comparing two parsers -/

/-- On these tokens the parser with the counter gives what the other gives, if it may take enough
steps, and leads the counter from one number to another. -/
def LeadsOn (tokens : List Token) (start stop : Nat) (c : Nat → Counted α) (p : Parser α) : Prop :=
  ∃ enough, ∀ steps, enough ≤ steps →
    c steps ⟨start, tokens⟩ = some ((p tokens).map fun (a, rest) => (a, ⟨stop, rest⟩))

/-- On all tokens. -/
def Leads (start stop : Nat) (c : Nat → Counted α) (p : Parser α) : Prop :=
  ∀ tokens, LeadsOn tokens start stop c p

/-- What calls no other parser succeeds with this. -/
def Does (c : Counted α) (s : Stand) (a : α) (s' : Stand) : Prop := c s = some (.ok (a, s'))

theorem bind_of_does {c : Counted α} {f : α → Counted β} {s s' : Stand} {a : α}
    (h : Does c s a s') : (c >>= f) s = f a s' := by
  change Option.bind (c s) _ = _
  rw [h]
  rfl

theorem bind_of_error {c : Counted α} {f : α → Counted β} {s : Stand} {e : ParseFailure}
    (h : c s = some (.error e)) : (c >>= f) s = some (.error e) := by
  change Option.bind (c s) _ = _
  rw [h]
  rfl

theorem leadsOn_take (p : Parser α) : LeadsOn tokens start start (fun _ => take p) p := by
  refine ⟨0, fun steps _ => ?_⟩
  change take p _ = _
  rw [take]
  cases p tokens <;> rfl

namespace LeadsOn

theorem pure (a : α) : LeadsOn tokens start start (fun _ => pure a) (pure a : Parser α) :=
  ⟨0, fun _ _ => rfl⟩

theorem bind (h : LeadsOn tokens start middle c p)
    (hf : ∀ a rest, p tokens = .ok (a, rest) →
      LeadsOn rest middle stop (fun steps => f steps a) (g a)) :
    LeadsOn tokens start stop (fun steps => c steps >>= f steps) (p >>= g) := by
  obtain ⟨first, hfirst⟩ := h
  cases hp : p tokens with
  | error e =>
    refine ⟨first, fun steps hsteps => ?_⟩
    have hc := hfirst steps hsteps
    rw [hp] at hc
    rw [bind_error hp]
    exact bind_of_error hc
  | ok result =>
    obtain ⟨a, rest⟩ := result
    obtain ⟨second, hsecond⟩ := hf a rest hp
    refine ⟨max first second, fun steps hsteps => ?_⟩
    have hc := hfirst steps (Nat.le_trans (Nat.le_max_left _ _) hsteps)
    rw [hp] at hc
    rw [bind_ok hp]
    exact (bind_of_does hc).trans (hsecond steps (Nat.le_trans (Nat.le_max_right _ _) hsteps))

/-- What is done first without a call. -/
theorem step {c : Counted α} {p q : Parser β} {rest : List Token} {a : α}
    (hc : Does c ⟨start, tokens⟩ a ⟨middle, rest⟩) (hp : p tokens = q rest)
    (h : LeadsOn rest middle stop (fun steps => f steps a) q) :
    LeadsOn tokens start stop (fun steps => c >>= f steps) p := by
  obtain ⟨enough, henough⟩ := h
  refine ⟨enough, fun steps hsteps => ?_⟩
  rw [hp]
  exact (bind_of_does hc).trans (henough steps hsteps)

theorem error {c : Counted α} {p : Parser β} {e : ParseFailure}
    (hc : c ⟨start, tokens⟩ = some (.error e)) (hp : p tokens = .error e) :
    LeadsOn tokens start stop (fun steps => c >>= f steps) p := by
  refine ⟨0, fun steps _ => ?_⟩
  rw [hp]
  exact bind_of_error hc

theorem assoc {γ : Type} {h : β → Counted γ} {q : Parser γ}
    (hc : LeadsOn tokens start stop (fun steps => c steps >>= fun a => f steps a >>= h) q) :
    LeadsOn tokens start stop (fun steps => (c steps >>= f steps) >>= h) q := by
  simpa only [LawfulMonad.bind_assoc] using hc

theorem ite {c' : Nat → Counted α} {p' : Parser α} {b : Prop} [Decidable b]
    (h : LeadsOn tokens start stop c p) (h' : LeadsOn tokens start stop c' p') :
    LeadsOn tokens start stop (fun steps => if b then c steps else c' steps)
      (if b then p else p') := by
  split
  · exact h
  · exact h'

/-- A parser takes a step more than those it calls. -/
theorem succ (h : LeadsOn tokens start stop (fun steps => c (steps + 1)) p) :
    LeadsOn tokens start stop c p := by
  obtain ⟨enough, henough⟩ := h
  refine ⟨enough + 1, fun steps hsteps => ?_⟩
  obtain ⟨fewer, rfl⟩ := Nat.exists_eq_add_one_of_ne_zero (Nat.ne_zero_of_lt hsteps)
  exact henough fewer (Nat.le_of_succ_le_succ hsteps)

end LeadsOn

namespace Leads

theorem pure (a : α) : Leads start start (fun _ => pure a) (pure a : Parser α) := fun _ => .pure a

theorem take (p : Parser α) : Leads start start (fun _ => take p) p := fun _ => leadsOn_take p

theorem bind (h : Leads start middle c p)
    (hf : ∀ a, Leads middle stop (fun steps => f steps a) (g a)) :
    Leads start stop (fun steps => c steps >>= f steps) (p >>= g) :=
  fun tokens => (h tokens).bind fun a rest _ => hf a rest

theorem ite {c' : Nat → Counted α} {p' : Parser α} {b : Prop} [Decidable b]
    (h : Leads start stop c p) (h' : Leads start stop c' p') :
    Leads start stop (fun steps => if b then c steps else c' steps) (if b then p else p') :=
  fun tokens => (h tokens).ite (h' tokens)

theorem assoc {γ : Type} {h : β → Counted γ} {q : Parser γ}
    (hc : Leads start stop (fun steps => c steps >>= fun a => f steps a >>= h) q) :
    Leads start stop (fun steps => (c steps >>= f steps) >>= h) q :=
  fun tokens => .assoc (hc tokens)

theorem succ (h : Leads start stop (fun steps => c (steps + 1)) p) : Leads start stop c p :=
  fun tokens => (h tokens).succ

/-- What is done with the counter before. -/
theorem step {c : Counted α} {q : Parser β} {a : α}
    (hc : ∀ tokens, Does c ⟨start, tokens⟩ a ⟨middle, tokens⟩)
    (h : Leads middle stop (fun steps => f steps a) q) :
    Leads start stop (fun steps => c >>= f steps) q :=
  fun tokens => .step (hc tokens) rfl (h tokens)

/-- What is done with the counter behind. -/
theorem close {f : α → Counted β} {h : α → β} (hc : Leads start middle c p)
    (hf : ∀ a tokens, Does (f a) ⟨middle, tokens⟩ (h a) ⟨stop, tokens⟩) :
    Leads start stop (fun steps => c steps >>= f) (h <$> p) :=
  .bind hc fun a tokens => ⟨0, fun _ _ => hf a tokens⟩

theorem close_id {f : α → Counted α} (hc : Leads start middle c p)
    (hf : ∀ a tokens, Does (f a) ⟨middle, tokens⟩ a ⟨stop, tokens⟩) :
    Leads start stop (fun steps => c steps >>= f) p := by
  have hid : id <$> p = p := by
    funext tokens
    change Parser.bind p _ tokens = _
    unfold Parser.bind
    cases p tokens <;> rfl
  rw [← hid]
  exact close hc hf

end Leads

/-! ## The counter -/

theorem does_take {p : Parser α} {a : α} {rest : List Token} (h : p tokens = .ok (a, rest)) :
    Does (take p) ⟨start, tokens⟩ a ⟨start, rest⟩ := by
  rw [Does, take, h]
  rfl

theorem does_isNext (s : Symbol) (tokens : List Token) :
    Does (isNext s) ⟨start, .symbol s :: tokens⟩ true ⟨start, .symbol s :: tokens⟩ := by
  change some (Except.ok (decide (s = s), _)) = _
  rw [decide_eq_true rfl]

theorem does_isNext_of_ne {s : Symbol} (h : tokens.head? ≠ some (.symbol s)) :
    Does (isNext s) ⟨start, tokens⟩ false ⟨start, tokens⟩ := by
  rcases tokens with _ | ⟨t, tokens⟩
  · rfl
  · cases t with
    | symbol t =>
      change some (Except.ok (decide (s = t), _)) = _
      rw [decide_eq_false]
      rintro rfl
      exact h rfl
    | _ => rfl

theorem does_depth (tokens : List Token) : Does depth ⟨start, tokens⟩ start ⟨start, tokens⟩ := rfl

theorem does_descend (h : start < Expr.maxDepth) (tokens : List Token) :
    Does descend ⟨start, tokens⟩ () ⟨start + 1, tokens⟩ := by
  change (if Expr.maxDepth < start + 1 then Counted.take (fail .tooDeep) else Pure.pure ())
    ⟨start + 1, tokens⟩ = _
  rw [if_neg (Nat.not_lt.mpr h)]
  rfl

theorem descend_deepest (h : start = Expr.maxDepth) (tokens : List Token) :
    descend ⟨start, tokens⟩ = some (.error ⟨.tooDeep, tokens⟩) := by
  subst h
  rfl

/-- A level is left with a result. -/
theorem does_leave (a : α) (tokens : List Token) :
    Does (do ascend; return a) ⟨start + 1, tokens⟩ a ⟨start, tokens⟩ := rfl

/-- Puts the counter back behind a chain. -/
def putBack (depth : Nat) (e : Expr) : Counted Expr := do
  restore depth
  return e

theorem leads_putBack (e : Expr) (stop : Nat) :
    Leads start stop (fun _ => putBack stop e) (Pure.pure e) := fun _ => ⟨0, fun _ _ => rfl⟩

/-- Entering a level in the counter and entering the next layer. -/
theorem Leads.descend {f : Nat → Unit → Counted α} {q : Layer → Parser α} {n : Nat}
    (hlevels : start + n = Expr.maxDepth)
    (h : ∀ m, n = m + 1 → Leads (start + 1) stop (fun steps => f steps ()) (q (.ofDepth m))) :
    Leads start stop (fun steps => Counted.descend >>= f steps)
      (Layer.enter (Layer.below n) q) := by
  cases n with
  | zero => exact fun tokens => .error (descend_deepest hlevels tokens) rfl
  | succ m => exact .step (does_descend (by omega)) (h m rfl)

/-! ## Lists and brackets -/

section

variable {depth : Nat} {inner sum : Parser Expr} {close : Symbol}

theorem length_lt_of_eatSymbol {s : Symbol} {rest : List Token}
    (h : eatSymbol s tokens = .ok (true, rest)) : rest.length < tokens.length := by
  rw [eq_of_eatSymbol h]
  exact Nat.lt_succ_self _

/-- With a fuel for every token and one more the items come to an end. -/
theorem leadsOn_items (h : Leads depth depth expression inner) (hinner : Pauses inner)
    (hclose : close ≠ .semicolon) {fuel : Nat} (hfuel : tokens.length < fuel) :
    LeadsOn tokens depth depth (items close) (itemsLoop inner close fuel) := by
  induction fuel generalizing tokens with
  | zero => exact absurd hfuel (Nat.not_lt_zero _)
  | succ fuel ih =>
    refine .succ (.bind (leadsOn_take _) fun closed rest hclosed => .ite (.pure _) ?_)
    have hrest := (pauses_eatSymbol hclose tokens closed rest hclosed).1.length_le
    refine .bind (h rest) fun e after he => .bind (leadsOn_take _) fun comma last hcomma => ?_
    have hafter := (hinner rest e after he).1.length_le
    cases comma with
    | true =>
      have hlast := length_lt_of_eatSymbol hcomma
      exact .bind (ih (by omega)) fun _ _ _ => .pure _
    | false => exact .bind (leadsOn_take _) fun _ _ _ => .pure _

theorem leads_items (h : Leads depth depth expression inner) (hinner : Pauses inner)
    (hclose : close ≠ .semicolon) : Leads depth depth (items close) (Parser.items inner close) :=
  fun _ => leadsOn_items h hinner hclose (Nat.lt_succ_self _)

theorem leadsOn_entries (h : Leads depth depth expression inner) (hinner : Pauses inner)
    {fuel : Nat} (hfuel : tokens.length < fuel) :
    LeadsOn tokens depth depth entries (entriesLoop inner fuel) := by
  induction fuel generalizing tokens with
  | zero => exact absurd hfuel (Nat.not_lt_zero _)
  | succ fuel ih =>
    refine .succ (.bind (leadsOn_take _) fun closed rest hclosed => .ite (.pure _) ?_)
    have hrest := (pauses_eatSymbol (by decide) tokens closed rest hclosed).1.length_le
    refine .bind (h rest) fun key colon hkey => .bind (leadsOn_take _) fun _ behind hcolon => ?_
    have hlekey := (hinner rest key colon hkey).1.length_le
    have hlecolon := (pauses_symbol (by decide) colon () behind hcolon).1.length_le
    refine .bind (h behind) fun e after he => .bind (leadsOn_take _) fun comma last hcomma => ?_
    have hafter := (hinner behind e after he).1.length_le
    cases comma with
    | true =>
      have hlast := length_lt_of_eatSymbol hcomma
      exact .bind (ih (by omega)) fun _ _ _ => .pure _
    | false => exact .bind (leadsOn_take _) fun _ _ _ => .pure _

theorem leads_entries (h : Leads depth depth expression inner) (hinner : Pauses inner) :
    Leads depth depth entries (Parser.entries inner) :=
  fun _ => leadsOn_entries h hinner (Nat.lt_succ_self _)

theorem leads_parenthesized (h : Leads depth depth expression inner) (hinner : Pauses inner) :
    Leads depth depth parenthesized (Parser.parenthesized inner) := by
  refine .succ (.bind (.take _) fun closed => .ite (.pure _) (.bind h fun first => ?_))
  refine .bind (.take _) fun closed => .ite (.pure first) (.bind (.take _) fun _ => ?_)
  exact .bind (leads_items h hinner (by decide)) fun items => .pure _

/-- What is not in brackets is a leaf. -/
theorem atom_eq_leaf {t : Token} (hparen : t ≠ .symbol .openParen)
    (hbracket : t ≠ .symbol .openBracket) (hbrace : t ≠ .symbol .openBrace) :
    Parser.atom inner (t :: tokens) = leaf (t :: tokens) := by
  cases t with
  | keyword k => cases k <;> rfl
  | symbol s =>
    cases s with
    | openParen => exact absurd rfl hparen
    | openBracket => exact absurd rfl hbracket
    | openBrace => exact absurd rfl hbrace
    | _ => rfl
  | _ => rfl

theorem leads_atom (h : Leads depth depth expression inner) (hinner : Pauses inner) :
    Leads depth depth atom (Parser.atom inner) := by
  intro tokens
  have hlist : Leads depth depth (fun steps => do return .list (← items .closeBracket steps))
      (Expr.list <$> Parser.items inner .closeBracket) :=
    .bind (leads_items h hinner (by decide)) fun items => .pure _
  have hdict : Leads depth depth (fun steps => do return .dict (← entries steps))
      (Expr.dict <$> Parser.entries inner) :=
    .bind (leads_entries h hinner) fun entries => .pure _
  refine .succ ?_
  rcases tokens with _ | ⟨t, tokens⟩
  · exact ⟨0, fun _ _ => rfl⟩
  by_cases hparen : t = .symbol .openParen
  · subst hparen
    exact .step (does_take (eatSymbol_cons _ _)) rfl (leads_parenthesized h hinner tokens)
  refine .step (does_take (eatSymbol_of_ne (by simpa using hparen))) rfl ?_
  by_cases hbracket : t = .symbol .openBracket
  · subst hbracket
    exact .step (does_take (eatSymbol_cons _ _)) rfl (hlist tokens)
  refine .step (does_take (eatSymbol_of_ne (by simpa using hbracket))) rfl ?_
  by_cases hbrace : t = .symbol .openBrace
  · subst hbrace
    exact .step (does_take (eatSymbol_cons _ _)) rfl (hdict tokens)
  refine .step (does_take (eatSymbol_of_ne (by simpa using hbrace))) ?_ (leadsOn_take leaf)
  exact atom_eq_leaf hparen hbracket hbrace

theorem leadsOn_comparisonLoop (h : Leads depth depth (chain .sum) sum) (hsum : Pauses sum)
    {fuel : Nat} (hfuel : tokens.length ≤ fuel) :
    LeadsOn tokens depth depth comparisonLoop (linksLoop sum fuel) := by
  induction fuel generalizing tokens with
  | zero =>
    obtain rfl := List.length_eq_zero_iff.mp (Nat.le_zero.mp hfuel)
    exact .succ ⟨0, fun _ _ => rfl⟩
  | succ fuel ih =>
    refine .succ (.bind (leadsOn_take _) fun c rest hc => ?_)
    cases c with
    | none => exact .pure _
    | some c =>
      have hless := length_lt_of_comparison hc
      refine .bind (h rest) fun e after he => ?_
      have hafter := (hsum rest e after he).1.length_le
      exact .bind (ih (by omega)) fun _ _ _ => .pure _

theorem leads_comparison (h : Leads depth depth (chain .sum) sum) (hsum : Pauses sum) :
    Leads depth depth comparison (Parser.comparison sum) := by
  have hlinks : Leads depth depth comparisonLoop fun tokens => linksLoop sum tokens.length tokens :=
    fun _ => leadsOn_comparisonLoop h hsum (Nat.le_refl _)
  exact .succ (.bind h fun first => .bind hlinks fun links => .pure _)

end

/-! ## Layers -/

open TemplateEngine.Layer in
/-- Where some levels have been entered and some are left, the parsers give the same. The loops of
chains enter more levels, and it does not matter what the counter is put back to behind them. -/
structure Agrees (entered left : Nat) : Prop where
  expression : Leads entered entered expression (ofDepth left).expression
  parser : ∀ place, Leads entered entered (parser place) ((ofDepth left).parser place)
  chain : ∀ (place : Precedence) (e : Expr) (stop : Nat), place.isChain = true → place ≠ .access →
    Leads entered stop (fun steps => chainLoop place e steps >>= putBack stop)
      ((ofDepth left).rest place e)
  access : ∀ (e : Expr) (stop : Nat),
    Leads entered stop (fun steps => accessLoop e steps >>= putBack stop)
      ((ofDepth left).accessRest e)

section

open TemplateEngine.Layer

variable {entered left : Nat} {place : Precedence}

theorem map_enter {inner : Option Layer} {q : Layer → Parser α} (g : α → β) :
    g <$> enter inner q = enter inner fun layer => g <$> q layer := by
  cases inner <;> rfl

/-- The parsers for a precedence, without the step of asking which it is. -/
theorem Leads.of_place {p : Parser Expr} (h : Leads start stop (parser place) p)
    {c : Nat → Counted Expr} (hc : ∀ steps, parser place (steps + 1) = c steps) :
    Leads start stop c p := by
  intro tokens
  obtain ⟨enough, henough⟩ := h tokens
  refine ⟨enough, fun steps hsteps => ?_⟩
  rw [← hc]
  exact henough (steps + 1) (Nat.le_succ_of_le hsteps)

theorem leads_expression (hlevels : entered + left = Expr.maxDepth)
    (hbelow : ∀ m, left = m + 1 → Agrees (entered + 1) m) :
    Leads entered entered expression (ofDepth left).expression := by
  rw [expression_eq]
  refine .succ (.descend hlevels fun m hm => ?_)
  have hconditional : Leads (entered + 1) (entered + 1) conditional _ :=
    ((hbelow m hm).parser .conditional).of_place fun _ => rfl
  exact hconditional.close_id does_leave

/-- A link is one level further in, and what comes behind the loop is the same wherever it ends. -/
theorem leads_chainLoop (hlevels : entered + left = Expr.maxDepth)
    (hbelow : ∀ m, left = m + 1 → Agrees (entered + 1) m) (hchain : place.isChain = true)
    (haccess : place ≠ .access) (e : Expr) (stop : Nat) :
    Leads entered stop (fun steps => chainLoop place e steps >>= putBack stop)
      ((ofDepth left).rest place e) := by
  rw [rest_eq hchain haccess]
  refine .succ (.assoc (.bind (.take _) fun op => ?_))
  cases op with
  | none => exact leads_putBack e stop
  | some combine =>
    refine .assoc (.descend hlevels fun m hm => .assoc ?_)
    exact .bind ((hbelow m hm).parser place.next) fun right =>
      (hbelow m hm).chain place _ stop hchain haccess

theorem leads_chain (hlevels : entered + left = Expr.maxDepth)
    (hbelow : ∀ m, left = m + 1 → Agrees (entered + 1) m) (hchain : place.isChain = true)
    (haccess : place ≠ .access)
    (hnext : Leads entered entered (parser place.next) ((ofDepth left).parser place.next)) :
    Leads entered entered (chain place) ((ofDepth left).parser place) := by
  rw [parser_eq (Precedence.isInfix_of_isChain hchain)]
  exact .succ (.step does_depth (.bind hnext fun e =>
    leads_chainLoop hlevels hbelow hchain haccess e entered))

theorem leads_conditional
    (hexpression : Leads entered entered expression (ofDepth left).expression)
    (hnext : Leads entered entered (chain .disjunction) ((ofDepth left).parser .disjunction)) :
    Leads entered entered conditional ((ofDepth left).parser .conditional) := by
  rw [parser_eq rfl]
  refine .succ (.bind hnext fun yes => .bind (.take _) fun found => .ite ?_ (.pure yes))
  refine .bind hnext fun condition => .bind (.take _) fun _ => ?_
  exact .bind hexpression fun no => .pure _

theorem leads_negation (hlevels : entered + left = Expr.maxDepth)
    (hbelow : ∀ m, left = m + 1 → Agrees (entered + 1) m)
    (hnext : Leads entered entered comparison ((ofDepth left).parser .comparison)) :
    Leads entered entered negation ((ofDepth left).parser .negation) := by
  rw [negation_eq, map_enter]
  refine .succ (.bind (.take _) fun found => .ite (.descend hlevels fun m hm => ?_) hnext)
  have hnegation : Leads (entered + 1) (entered + 1) negation _ :=
    ((hbelow m hm).parser .negation).of_place fun _ => rfl
  exact hnegation.close fun e => does_leave (Expr.not e)

theorem leads_signed (hlevels : entered + left = Expr.maxDepth)
    (hbelow : ∀ m, left = m + 1 → Agrees (entered + 1) m)
    (hnext : Leads entered entered access ((ofDepth left).parser .access)) :
    Leads entered entered signed ((ofDepth left).parser .sign) := by
  rw [signed_eq]
  refine .succ (.bind (.take _) fun found => ?_)
  cases found with
  | none => exact hnext
  | some sign =>
    rw [Option.elim_some, map_enter]
    refine .descend hlevels fun m hm => ?_
    have hsigned : Leads (entered + 1) (entered + 1) signed _ :=
      ((hbelow m hm).parser .sign).of_place fun _ => rfl
    exact hsigned.close fun e => does_leave (Expr.signed sign e)

/-! ### Accesses -/

theorem Agrees.items (h : Agrees entered left) : Leads entered entered (items .closeParen)
    (Parser.items (ofDepth left).expression .closeParen) :=
  leads_items h.expression (pausing left).expression (by decide)

theorem leads_dot (h : Agrees entered left) (e : Expr) (stop : Nat) :
    Leads entered stop (fun steps => (do
      let n ← take name
      if ← take (eatSymbol .openParen) then
        let args ← items .closeParen steps
        accessLoop (.method e n args) steps
      else accessLoop (.dot e n) steps) >>= putBack stop) (do
      let n ← name
      if ← eatSymbol .openParen then
        let args ← Parser.items (ofDepth left).expression .closeParen
        (ofDepth left).accessRest (.method e n args)
      else (ofDepth left).accessRest (.dot e n)) := by
  refine .assoc (.bind (.take _) fun n => .assoc (.bind (.take _) fun opens => ?_))
  cases opens with
  | true => exact .assoc (.bind h.items fun args => h.access _ stop)
  | false => exact h.access _ stop

theorem leads_subscript (h : Agrees entered left) (e : Expr) (stop : Nat) :
    Leads entered stop (fun steps => (do
      let index ← expression steps
      take (symbol .closeBracket)
      accessLoop (.subscript e index) steps) >>= putBack stop) (do
      let index ← (ofDepth left).expression
      symbol .closeBracket
      (ofDepth left).accessRest (.subscript e index)) :=
  .assoc (.bind h.expression fun _ => .assoc (.bind (.take _) fun _ => h.access _ stop))

theorem leads_call (h : Agrees entered left) (f : Text) (stop : Nat) :
    Leads entered stop (fun steps => (do
      let args ← items .closeParen steps
      accessLoop (.call f args) steps) >>= putBack stop) (do
      let args ← Parser.items (ofDepth left).expression .closeParen
      (ofDepth left).accessRest (.call f args)) :=
  .assoc (.bind h.items fun _ => h.access _ stop)

theorem exists_link_of_not_ends (h : ¬Token.Ends .access tokens) : ∃ t rest, tokens = t :: rest
    ∧ (t = .symbol .dot ∨ t = .symbol .openBracket ∨ t = .symbol .openParen) := by
  rcases tokens with _ | ⟨t, rest⟩
  · exact absurd (Token.ends_nil _) h
  refine ⟨t, rest, rfl, ?_⟩
  rw [Token.ends_cons] at h
  cases t with
  | symbol s =>
    cases s with
    | dot => exact .inl rfl
    | openBracket => exact .inr (.inl rfl)
    | openParen => exact .inr (.inr rfl)
    | _ => exact absurd (by decide) h
  | keyword k => cases k <;> exact absurd (by decide) h
  | _ => exact absurd (Nat.zero_lt_succ _) h

/-- The chain ends where no access is next. -/
theorem leadsOn_accessLoop_of_ends (hends : Token.Ends .access tokens) (e : Expr) (stop : Nat) :
    LeadsOn tokens entered stop (fun steps => accessLoop e steps >>= putBack stop)
      ((ofDepth left).accessRest e) := by
  have hnext : ∀ s, Precedence.access.rank ≤ (Token.symbol s).binding →
      Does (isNext s) ⟨entered, tokens⟩ false ⟨entered, tokens⟩ :=
    fun s hs => does_isNext_of_ne (hends.ne hs)
  have heat : ∀ s, Precedence.access.rank ≤ (Token.symbol s).binding →
      Does (take (eatSymbol s)) ⟨entered, tokens⟩ false ⟨entered, tokens⟩ :=
    fun s hs => does_take (eatSymbol_of_ne (hends.ne hs))
  have hdescend : Does descendToLink ⟨entered, tokens⟩ () ⟨entered, tokens⟩ := by
    rw [Does, descendToLink, bind_of_does (hnext .dot (by decide)),
      bind_of_does (hnext .openBracket (by decide)), bind_of_does (hnext .openParen (by decide))]
    rfl
  have hrest : (ofDepth left).accessRest e tokens = (pure e : Parser Expr) tokens :=
    rest_of_ends hends left e
  refine .succ (.assoc (.step hdescend rfl (.assoc (.step (heat .dot (by decide)) rfl ?_))))
  refine .assoc (.step (heat .openBracket (by decide)) rfl ?_)
  refine .assoc (.step (hnext .openParen (by decide)) hrest ?_)
  exact leads_putBack e stop tokens

/-- A chain goes on where an attribute, a subscript or a call is next. -/
theorem leads_accessLoop (hlevels : entered + left = Expr.maxDepth)
    (hbelow : ∀ m, left = m + 1 → Agrees (entered + 1) m) (e : Expr) (stop : Nat) :
    Leads entered stop (fun steps => accessLoop e steps >>= putBack stop)
      ((ofDepth left).accessRest e) := by
  have hrest : (ofDepth left).accessRest e = accessRestWith (below left) e := by
    rw [ofDepth_eq]
    rfl
  intro tokens
  by_cases hends : Token.Ends .access tokens
  · exact leadsOn_accessLoop_of_ends hends e stop
  obtain ⟨t, rest, rfl, ht⟩ := exists_link_of_not_ends hends
  rw [hrest]
  refine .succ (.assoc ?_)
  cases left with
  | zero => rcases ht with rfl | rfl | rfl <;> exact .error (descend_deepest hlevels _) rfl
  | succ m =>
    have hagrees := hbelow m rfl
    have hless : entered < Expr.maxDepth := by omega
    rcases ht with rfl | rfl | rfl
    · refine .step (does_descend hless _) rfl (.assoc ?_)
      exact .step (does_take (eatSymbol_cons _ _)) rfl (leads_dot hagrees e stop rest)
    · refine .step (does_descend hless _) rfl (.assoc (.step (does_take rfl) rfl (.assoc ?_)))
      exact .step (does_take (eatSymbol_cons _ _)) rfl (leads_subscript hagrees e stop rest)
    · refine .step (does_descend hless _) rfl (.assoc (.step (does_take rfl) rfl (.assoc ?_)))
      refine .step (does_take rfl) rfl (.assoc (.step (does_isNext _ _) rfl (.assoc ?_)))
      cases e with
      | name f =>
        refine .step (does_take rfl) rfl (.assoc ?_)
        exact .step (does_take (symbol_cons _ _)) rfl (leads_call hagrees f stop rest)
      | _ => exact .error rfl rfl

theorem leads_access (hlevels : entered + left = Expr.maxDepth)
    (hbelow : ∀ m, left = m + 1 → Agrees (entered + 1) m)
    (hnext : Leads entered entered atom ((ofDepth left).parser .atom)) :
    Leads entered entered access ((ofDepth left).parser .access) := by
  rw [parser_eq rfl]
  exact .succ (.step does_depth (.bind hnext fun e =>
    leads_accessLoop hlevels hbelow e entered))

/-! ### A whole layer -/

/-- All parsers give the same, if the next tighter one does. -/
theorem leads_place (hlevels : entered + left = Expr.maxDepth)
    (hbelow : ∀ m, left = m + 1 → Agrees (entered + 1) m) (place : Precedence) :
    Leads entered entered (parser place) ((ofDepth left).parser place) := by
  have hexpression := leads_expression hlevels hbelow
  refine Precedence.descend
    (P := fun place => Leads entered entered (parser place) ((ofDepth left).parser place))
    ?_ ?_ place.rank_le_atom
  · exact .succ (leads_atom hexpression (pausing left).expression)
  · intro place hatom _ hnext
    refine .succ ?_
    cases place with
    | conditional =>
      exact leads_conditional hexpression (hnext.of_place fun _ => rfl)
    | disjunction | conjunction | sum | term =>
      exact leads_chain hlevels hbelow rfl (by decide) hnext
    | negation => exact leads_negation hlevels hbelow (hnext.of_place fun _ => rfl)
    | comparison =>
      exact leads_comparison (hnext.of_place fun _ => rfl) ((pausing left).parser .sum)
    | sign => exact leads_signed hlevels hbelow (hnext.of_place fun _ => rfl)
    | access => exact leads_access hlevels hbelow (hnext.of_place fun _ => rfl)
    | atom => exact absurd rfl hatom

theorem agrees_of_below (hlevels : entered + left = Expr.maxDepth)
    (hbelow : ∀ m, left = m + 1 → Agrees (entered + 1) m) : Agrees entered left where
  expression := leads_expression hlevels hbelow
  parser := leads_place hlevels hbelow
  chain _ := fun e stop hchain haccess => leads_chainLoop hlevels hbelow hchain haccess e stop
  access := leads_accessLoop hlevels hbelow

/-- The counter and the layers agree wherever the levels add up. -/
theorem agrees (hlevels : entered + left = Expr.maxDepth) : Agrees entered left := by
  induction left generalizing entered with
  | zero => exact agrees_of_below hlevels nofun
  | succ left ih =>
    refine agrees_of_below hlevels ?_
    rintro m ⟨⟩
    exact ih (by omega)

end

/-! ## Statements -/

theorem leads_expression_all : Leads 0 0 expression Parser.expression :=
  (agrees (Nat.zero_add _)).expression

theorem leads_statement : Leads 0 0 statement Parser.statement := by
  rw [statement_eq]
  refine .bind (.take _) fun found => ?_
  cases found with
  | none => exact .bind leads_expression_all fun e => .pure _
  | some assigned => exact .bind leads_expression_all fun e => .pure _

theorem leadsOn_statementsLoop {fuel : Nat} (hfuel : tokens.length ≤ fuel) :
    LeadsOn tokens 0 0 statementsLoop (Parser.statementsLoop fuel) := by
  induction fuel generalizing tokens with
  | zero =>
    obtain rfl := List.length_eq_zero_iff.mp (Nat.le_zero.mp hfuel)
    exact .succ ⟨0, fun _ _ => rfl⟩
  | succ fuel ih =>
    refine .succ ?_
    rcases tokens with _ | ⟨t, tokens⟩
    · exact ⟨0, fun _ _ => rfl⟩
    have hget : Does get ⟨0, t :: tokens⟩ ⟨0, t :: tokens⟩ ⟨0, t :: tokens⟩ := rfl
    refine .step hget (statementsLoop_cons fuel t tokens) (.bind (leads_statement _) ?_)
    intro s rest hs
    have hrest := (pauses_statement (t :: tokens) s rest hs).1.length_le
    refine .bind (leadsOn_take _) fun found after hfound => ?_
    cases found with
    | true =>
      have hafter := length_lt_of_eatSymbol hfound
      rw [List.length_cons] at hfuel hrest
      exact .bind (ih (by omega)) fun _ _ _ => .pure _
    | false =>
      -- then nothing may be left, so there is fuel for it
      refine .bind (leadsOn_take _) fun _ after hfinish => ?_
      obtain ⟨-, rfl⟩ := eq_nil_of_finish hfinish
      exact .bind (ih (Nat.zero_le fuel)) fun _ _ _ => .pure _

theorem leads_statements : Leads 0 0 statements Parser.statements := by
  have hloop : Leads 0 0 statementsLoop fun tokens => Parser.statementsLoop tokens.length tokens :=
    fun tokens => leadsOn_statementsLoop (Nat.le_refl _)
  exact .bind hloop fun ss => .ite (.take _) (.pure ss)

/-! ## Whole texts -/

/-- On whole texts both give the same. -/
theorem Leads.parse (h : Leads 0 0 c p) (text : Text) :
    ∃ enough, ∀ steps, enough ≤ steps → Counted.parse (c steps) text = some (p.parse text) := by
  have hall : Leads 0 0 (fun steps => do let a ← c steps; Counted.take finish; return a)
      (do let a ← p; finish; return a) :=
    .bind h fun a => .bind (.take finish) fun _ => .pure a
  unfold Counted.parse Parser.parse
  cases Lexeme.tokenize text with
  | error e => exact ⟨0, fun _ _ => rfl⟩
  | ok lexemes =>
    obtain ⟨enough, henough⟩ := hall (lexemes.map (·.token))
    refine ⟨enough, fun steps hsteps => ?_⟩
    have hresult := henough steps hsteps
    dsimp only at hresult ⊢
    rw [hresult, ok_bind]
    generalize (do let a ← p; finish; return a : Parser α) (lexemes.map (·.token)) = result
    cases result <;> rfl

/-- The parsers for parts of a statement. -/
inductive IsPart : {α : Type} → (Nat → Counted α) → Prop
  | expression : IsPart expression
  | place (place : Precedence) : IsPart (parser place)
  | parenthesized : IsPart parenthesized
  | items {close : Symbol} (hclose : close ≠ .semicolon) : IsPart (items close)
  | entries : IsPart entries

/-- With enough steps the parser comes to an end, and if it succeeds the counter is what it was
before. -/
def Restores (entered : Nat) (c : Nat → Counted α) : Prop :=
  ∀ tokens, ∃ enough, ∀ steps, enough ≤ steps → ∃ result, c steps ⟨entered, tokens⟩ = some result
    ∧ ∀ a s, result = .ok (a, s) → s.depth = entered

theorem Leads.restores (h : Leads start start c p) : Restores start c := by
  intro tokens
  obtain ⟨enough, henough⟩ := h tokens
  refine ⟨enough, fun steps hsteps => ⟨_, henough steps hsteps, fun a s heq => ?_⟩⟩
  cases hp : p tokens with
  | error e =>
    rw [hp] at heq
    cases heq
  | ok result =>
    rw [hp] at heq
    cases heq
    rfl

/-- **The counter is put back** by every parser, wherever it starts. -/
theorem IsPart.restores {entered : Nat} (h : IsPart c) (hle : entered ≤ Expr.maxDepth) :
    Restores entered c := by
  have hagrees : Agrees entered (Expr.maxDepth - entered) := agrees (Nat.add_sub_cancel' hle)
  have hinner := (Layer.pausing (Expr.maxDepth - entered)).expression
  cases h with
  | expression => exact hagrees.expression.restores
  | place place => exact (hagrees.parser place).restores
  | parenthesized => exact (leads_parenthesized hagrees.expression hinner).restores
  | items hclose => exact (leads_items hagrees.expression hinner hclose).restores
  | entries => exact (leads_entries hagrees.expression hinner).restores

end Counted

end TemplateEngine
