import TemplateEngine.Proofs.Layers
import TemplateEngine.Proofs.Lexing

/-!
# Expressions are read back

Parsing undoes printing (`Expr.parse_print`). Each expression is shown to be readable from its
tokens if its parts are, one lemma for each constructor (`Expr.Readable`), and then each text
is read whose tokens are.
-/

namespace TemplateEngine

/-! ## Readable expressions -/

namespace Expr

open Layer TemplateEngine.Parser

/-- The tokens of an expression are read as the expression. -/
structure Readable (e : Expr) : Prop where
  begins : Token.Begins e.precedence e.tokens
  reads : ReadsAt e.precedence e.tokens e
  continues : ∀ n after, e.precedence.isChain = true → Token.Ends e.precedence.next after →
    Continues e.precedence ((ofDepth n).parser e.precedence) n e.tokens e after

theorem within_of_lt {e : Expr} {place : Precedence} (h : e.precedence.rank < place.rank) :
    e.within place = .symbol .openParen :: e.tokens ++ [.symbol .closeParen] := by
  rw [within, Precedence.fit, if_pos h]

theorem within_of_le {e : Expr} {place : Precedence} (h : place.rank ≤ e.precedence.rank) :
    e.within place = e.tokens := by
  rw [within, Precedence.fit, if_neg (Nat.not_lt.mpr h)]

namespace Readable

variable {e : Expr} {place : Precedence} {after : List Token} {n : Nat}

theorem begins_inside (h : Readable e) : Token.Begins .conditional e.tokens :=
  h.begins.mono (Precedence.rank_pos _)

/-- An expression is read in brackets. -/
theorem reads_inside (h : Readable e) (hends : Token.Ends .conditional after) :
    Reads (ofDepth n).expression n e.tokens e after := by
  have hconditional := h.reads.of_tighter h.begins (Precedence.rank_pos _)
  rw [expression_eq]
  apply reads_enter
  rintro m rfl
  exact hconditional m after hends

/-- An expression in parentheses is read. -/
theorem reads_parenthesized (h : Readable e) :
    ReadsAt .atom (.symbol .openParen :: e.tokens ++ [.symbol .closeParen]) e := by
  intro n after _
  have hclose : Token.Ends .conditional (.symbol .closeParen :: after) :=
    Token.ends_cons.mpr (by decide)
  have hopen : eatSymbol .closeParen (e.tokens ++ [.symbol .closeParen] ++ after)
      = .ok (false, e.tokens ++ [.symbol .closeParen] ++ after) := by
    rw [List.append_assoc]
    exact eatSymbol_of_ne (h.begins_inside.ne (by decide))
  refine .cons (q := parenthesized (ofDepth n).expression) rfl (.congr (bind_ok hopen) ?_)
  refine .bind (h.reads_inside hclose) (.inl ?_)
  exact bind_ok (eatSymbol_cons .closeParen after)

theorem begins_within (h : Readable e) (place : Precedence) :
    Token.Begins place (e.within place) := by
  rcases Nat.lt_or_ge e.precedence.rank place.rank with hlt | hle
  · rw [within_of_lt hlt]
    exact ⟨_, _, rfl, by cases place <;> decide⟩
  · rw [within_of_le hle]
    exact h.begins.mono hle

/-- An expression is read in each place. -/
theorem reads_within (h : Readable e) (place : Precedence) :
    ReadsAt place (e.within place) e := by
  rcases Nat.lt_or_ge e.precedence.rank place.rank with hlt | hle
  · rw [within_of_lt hlt]
    exact h.reads_parenthesized.of_tighter ⟨_, _, rfl, Nat.le_refl _⟩ (by cases place <;> decide)
  · rw [within_of_le hle]
    exact h.reads.of_tighter h.begins hle

/-- An expression is read as the left part of a chain. -/
theorem continues_within (h : Readable e) (hchain : place.isChain = true)
    (hends : Token.Ends place.next after) :
    Continues place ((ofDepth n).parser place) n (e.within place) e after := by
  by_cases heq : e.precedence = place
  · subst heq
    rw [within_of_le (Nat.le_refl _)]
    exact h.continues n after hchain hends
  · -- the expression is no chain of this kind, but the first part of one
    have hne : e.precedence.rank ≠ place.rank := fun hrank => heq (Precedence.rank_inj hrank)
    have hnext := Precedence.rank_next (Precedence.ne_atom_of_isChain hchain)
    have hwithin : e.within place = e.within place.next := by
      rcases Nat.lt_or_ge e.precedence.rank place.rank with hlt | hle
      · rw [within_of_lt hlt, within_of_lt (by omega)]
      · rw [within_of_le hle, within_of_le (by omega)]
    rw [hwithin, parser_eq (Precedence.isInfix_of_isChain hchain)]
    exact .of_reads (h.reads_within place.next n after hends)

end Readable

/-! ### Lists -/

/-- In brackets the parser reads the tokens of an expression as the expression. -/
structure ReadInside (expression : Parser Expr) (levels : Nat) (e : Expr) : Prop where
  begins : Token.Begins .conditional e.tokens
  reads : ∀ after, Token.Ends .conditional after → Reads expression levels e.tokens e after

theorem Readable.inside {e : Expr} (h : Readable e) (n : Nat) :
    ReadInside (ofDepth n).expression n e :=
  ⟨h.begins_inside, fun _ => h.reads_inside⟩

section

variable {expression : Parser Expr} {close : Symbol} {fuel levels : Nat}
  {tokens after : List Token}

/-- What follows an item of a list. -/
def itemsRest (expression : Parser Expr) (close : Symbol) (fuel : Nat) (e : Expr) :
    Parser (List Expr) := do
  if ← eatSymbol .comma then return e :: (← itemsLoop expression close fuel)
  symbol close
  return [e]

theorem itemsLoop_of_ne (h : tokens.head? ≠ some (.symbol close)) :
    itemsLoop expression close (fuel + 1) tokens
      = (expression >>= itemsRest expression close fuel) tokens :=
  bind_ok (eatSymbol_of_ne h)

theorem itemsRest_comma (e : Expr) :
    itemsRest expression close fuel e (.symbol .comma :: tokens)
      = (itemsLoop expression close fuel >>= fun items => pure (e :: items)) tokens :=
  bind_ok (eatSymbol_cons .comma tokens)

theorem itemsRest_close (h : close ≠ .comma) (e : Expr) :
    itemsRest expression close fuel e (.symbol close :: after) = .ok ([e], after) := by
  have hcomma : (Token.symbol close :: after).head? ≠ some (.symbol .comma) := by simpa using h
  refine (bind_ok (eatSymbol_of_ne hcomma)).trans ?_
  exact bind_ok (symbol_cons close after)

/-- The symbols that end a list of expressions. -/
def Closes (close : Symbol) : Prop := close = .closeParen ∨ close = .closeBracket

theorem reads_itemsLoop {items : List Expr} (h : ∀ e ∈ items, ReadInside expression levels e)
    (hclose : Closes close) (hfuel : (itemTokens items).length < fuel) :
    Reads (itemsLoop expression close fuel) (levels + 1)
      (itemTokens items ++ [.symbol close]) items after := by
  have hopens : (Token.symbol close).opens < Precedence.conditional.rank := by
    rcases hclose with rfl | rfl <;> decide
  have hends : Token.Ends .conditional (.symbol close :: after) :=
    Token.ends_cons.mpr (by rcases hclose with rfl | rfl <;> decide)
  have hcomma : close ≠ .comma := by rcases hclose with rfl | rfl <;> decide
  -- each item and what follows it take a token, so the fuel lasts for the items that are left
  induction items generalizing fuel with
  | nil =>
    obtain ⟨fuel, rfl⟩ := Nat.exists_eq_add_one_of_ne_zero (Nat.ne_zero_of_lt hfuel)
    exact .inl (bind_ok (eatSymbol_cons close after))
  | cons e items ih =>
    obtain ⟨fuel, rfl⟩ := Nat.exists_eq_add_one_of_ne_zero (Nat.ne_zero_of_lt hfuel)
    have he := h e List.mem_cons_self
    cases items with
    | nil =>
      refine .congr (itemsLoop_of_ne ?_) (.bind_succ (he.reads _ hends) (by simp) ?_)
      · rw [List.append_assoc]
        exact he.begins.ne hopens
      · exact .inl (itemsRest_close hcomma e)
    | cons next items =>
      have hlength : (itemTokens (next :: items)).length < fuel := by
        simp only [itemTokens, List.length_append, List.length_cons] at hfuel
        omega
      have hnext := ih (fun e he => h e (List.mem_cons_of_mem _ he)) hlength
      have hcomma : Token.Ends .conditional
          (.symbol .comma :: (itemTokens (next :: items) ++ [.symbol close]) ++ after) :=
        Token.ends_cons.mpr (by decide)
      rw [itemTokens, List.append_assoc]
      refine .congr (itemsLoop_of_ne ?_) (.bind_succ (he.reads _ hcomma) (by simp) ?_)
      · rw [List.append_assoc]
        exact he.begins.ne hopens
      · exact (Reads.cons (itemsRest_comma e) hnext.map).mono (Nat.le_succ _)

theorem reads_items {items : List Expr} (h : ∀ e ∈ items, ReadInside expression levels e)
    (hclose : Closes close) :
    Reads (Parser.items expression close) (levels + 1)
      (itemTokens items ++ [.symbol close]) items after := by
  refine .congr (q := itemsLoop expression close _) rfl (reads_itemsLoop h hclose ?_)
  simp only [List.length_append]
  omega

theorem reads_list {items : List Expr} (h : ∀ e ∈ items, ReadInside expression levels e) :
    Reads (atom expression) (levels + 1) (Expr.tokens (.list items)) (.list items)
      after := by
  refine .mono (Nat.le_succ _) (.cons ?_ (reads_items h (.inr rfl)).map)
  rfl

/-! ### Dictionaries -/

/-- What follows the value of an entry. -/
def entriesRest (expression : Parser Expr) (fuel : Nat) (key e : Expr) :
    Parser (List (Expr × Expr)) := do
  if ← eatSymbol .comma then return (key, e) :: (← entriesLoop expression fuel)
  symbol .closeBrace
  return [(key, e)]

/-- What follows the key of an entry. -/
def entryRest (expression : Parser Expr) (fuel : Nat) (key : Expr) :
    Parser (List (Expr × Expr)) := do
  symbol .colon
  entriesRest expression fuel key (← expression)

theorem entriesLoop_of_ne (h : tokens.head? ≠ some (.symbol .closeBrace)) :
    entriesLoop expression (fuel + 1) tokens = (expression >>= entryRest expression fuel) tokens :=
  bind_ok (eatSymbol_of_ne h)

theorem entryRest_colon (key : Expr) :
    entryRest expression fuel key (.symbol .colon :: tokens)
      = (expression >>= entriesRest expression fuel key) tokens :=
  bind_ok (symbol_cons .colon tokens)

theorem entriesRest_comma (key e : Expr) :
    entriesRest expression fuel key e (.symbol .comma :: tokens)
      = (entriesLoop expression fuel >>= fun entries => pure ((key, e) :: entries)) tokens :=
  bind_ok (eatSymbol_cons .comma tokens)

theorem entriesRest_close (key e : Expr) :
    entriesRest expression fuel key e (.symbol .closeBrace :: after) = .ok ([(key, e)], after) :=
  rfl

/-- A key with its value is read. -/
theorem reads_entry {key e : Expr} (hkey : ReadInside expression levels key)
    (he : ReadInside expression levels e) {more : List Token} {entries : List (Expr × Expr)}
    (hends : Token.Ends .conditional (more ++ after))
    (hmore : Reads (entriesRest expression fuel key e) levels more entries after) :
    Reads (entriesLoop expression (fuel + 1)) levels
      (key.tokens ++ .symbol .colon :: e.tokens ++ more) entries after := by
  have hcolon : Token.Ends .conditional (.symbol .colon :: (e.tokens ++ more) ++ after) :=
    Token.ends_cons.mpr (by decide)
  have hvalue := (he.reads _ hends).bind hmore
  rw [List.append_assoc]
  refine .congr (entriesLoop_of_ne ?_) (.bind (hkey.reads _ hcolon) ?_)
  · rw [List.append_assoc]
    exact hkey.begins.ne (by decide)
  · exact (Reads.cons (entryRest_colon key) hvalue).mono (Nat.le_succ levels)

theorem reads_entriesLoop {entries : List (Expr × Expr)}
    (hkeys : ∀ entry ∈ entries, ReadInside expression levels entry.1)
    (hvalues : ∀ entry ∈ entries, ReadInside expression levels entry.2)
    (hfuel : (entryTokens entries).length < fuel) :
    Reads (entriesLoop expression fuel) levels
      (entryTokens entries ++ [.symbol .closeBrace]) entries after := by
  induction entries generalizing fuel with
  | nil =>
    obtain ⟨fuel, rfl⟩ := Nat.exists_eq_add_one_of_ne_zero (Nat.ne_zero_of_lt hfuel)
    exact .inl (bind_ok (eatSymbol_cons .closeBrace after))
  | cons entry entries ih =>
    obtain ⟨fuel, rfl⟩ := Nat.exists_eq_add_one_of_ne_zero (Nat.ne_zero_of_lt hfuel)
    obtain ⟨key, e⟩ := entry
    have hkey : ReadInside expression levels key := hkeys _ List.mem_cons_self
    have he : ReadInside expression levels e := hvalues _ List.mem_cons_self
    cases entries with
    | nil =>
      exact reads_entry hkey he (Token.ends_cons.mpr (by decide)) (.inl (entriesRest_close key e))
    | cons next entries =>
      have hlength : (entryTokens (next :: entries)).length < fuel := by
        simp only [entryTokens, List.length_append, List.length_cons] at hfuel
        omega
      have hnext := ih (fun entry hentry => hkeys entry (List.mem_cons_of_mem _ hentry))
        (fun entry hentry => hvalues entry (List.mem_cons_of_mem _ hentry)) hlength
      have hmore := (Reads.cons (entriesRest_comma key e) hnext.map).mono (Nat.le_succ levels)
      rw [entryTokens, List.append_assoc]
      exact reads_entry hkey he (Token.ends_cons.mpr (by decide)) hmore

theorem reads_entries {entries : List (Expr × Expr)}
    (hkeys : ∀ entry ∈ entries, ReadInside expression levels entry.1)
    (hvalues : ∀ entry ∈ entries, ReadInside expression levels entry.2) :
    Reads (Parser.entries expression) levels
      (entryTokens entries ++ [.symbol .closeBrace]) entries after := by
  refine .congr (q := entriesLoop expression _) rfl
    (reads_entriesLoop hkeys hvalues ?_)
  simp only [List.length_append]
  omega

theorem reads_dict {entries : List (Expr × Expr)}
    (hkeys : ∀ entry ∈ entries, ReadInside expression levels entry.1)
    (hvalues : ∀ entry ∈ entries, ReadInside expression levels entry.2) :
    Reads (atom expression) (levels + 1) (Expr.tokens (.dict entries)) (.dict entries)
      after :=
  .cons (q := Parser.entries _ >>= fun entries => pure (.dict entries)) rfl
    (reads_entries hkeys hvalues).map

/-! ### Signs -/

theorem reads_signed {n : Nat} {e : Expr} (sign : Sign)
    (h : Reads (enter (below n) (·.signed)) levels (e.within .sign) e after) :
    Reads ((ofDepth n).parser .sign) (levels + 1) (Expr.tokens (.signed sign e))
      (.signed sign e) after := by
  refine .cons (q := enter (below n) (·.signed) >>= fun e => pure (.signed sign e)) ?_ h.map
  rw [ofDepth_eq]
  cases sign <;> rfl

/-! ### Chains of comparisons -/

variable {n : Nat}

/-- The sum before a link ends where the link begins. -/
theorem ends_linkTokens (hends : Token.Ends .comparison after) (links : List (Comparison × Expr)) :
    Token.Ends .sum (linkTokens links ++ after) := by
  cases links with
  | nil => exact hends.mono (by decide)
  | cons link links =>
    obtain ⟨c, e⟩ := link
    cases c <;> exact Token.ends_cons.mpr (by decide)

theorem reads_linksLoop {links : List (Comparison × Expr)}
    (h : ∀ link ∈ links, Readable link.2) (hends : Token.Ends .comparison after)
    (hfuel : links.length ≤ fuel) :
    Reads (linksLoop ((ofDepth n).parser .sum) fuel) (n + 1) (linkTokens links) links after := by
  induction links generalizing fuel with
  | nil => exact .inl (linksLoop_of_ends hends fuel)
  | cons link links ih =>
    obtain ⟨c, e⟩ := link
    obtain ⟨fuel, rfl⟩ := Nat.exists_eq_add_one_of_ne_zero (Nat.ne_zero_of_lt hfuel)
    have he : Readable e := h _ List.mem_cons_self
    have hlinks := ih (fun link hlink => h link (List.mem_cons_of_mem _ hlink))
      (Nat.le_of_succ_le_succ hfuel)
    have hoperand := he.reads_within .sum n _ (ends_linkTokens hends links)
    have hc : Reads comparison? (n + 1) c.tokens (some c)
        (e.within .sum ++ linkTokens links ++ after) := by
      rw [List.append_assoc]
      exact .inl (comparison?_tokens c (he.begins_within .sum))
    change Reads (comparison? >>= _) (n + 1) (c.tokens ++ e.within .sum ++ linkTokens links) _ _
    rw [List.append_assoc]
    exact hc.bind (hoperand.bind hlinks.map)

theorem length_links_le (links : List (Comparison × Expr)) :
    links.length ≤ (linkTokens links).length := by
  induction links with
  | nil => exact Nat.le_refl _
  | cons link links ih =>
    obtain ⟨c, e⟩ := link
    have hc : 0 < c.tokens.length := by cases c <;> decide
    simp only [linkTokens, List.length_append, List.length_cons]
    omega

end

/-! ### All constructs -/

namespace Readable

/-- An expression that nothing looser can be read from. -/
theorem of_reads {e : Expr} (hchain : e.precedence.isChain = false)
    (hbegins : Token.Begins e.precedence e.tokens) (hreads : ReadsAt e.precedence e.tokens e) :
    Readable e :=
  ⟨hbegins, hreads, fun _ _ h => absurd h (by simp [hchain])⟩

/-- A chain is read if it is read as the left part of a longer one. -/
theorem of_continues {e : Expr} (hbegins : Token.Begins e.precedence e.tokens)
    (hcontinues : ∀ n after, Token.Ends e.precedence.next after →
      Continues e.precedence ((ofDepth n).parser e.precedence) n e.tokens e after) :
    Readable e := by
  refine ⟨hbegins, ?_, fun n after _ => hcontinues n after⟩
  intro n after hends
  exact (hcontinues n after (hends.mono (Precedence.rank_le_next _))).reads hends

variable {e left right : Expr} {items : List Expr}

/-- What is read as one token. -/
theorem of_token {t : Token} (htokens : e.tokens = [t]) (hatom : e.precedence = .atom)
    (ht : t.opens = Precedence.atom.rank)
    (hread : ∀ (expression : Parser Expr) after, atom expression (t :: after) = .ok (e, after)) :
    Readable e := by
  refine of_reads (by rw [hatom]; rfl) ?_ ?_
  · rw [htokens, hatom]
    exact ⟨t, [], rfl, Nat.le_of_eq ht.symm⟩
  · rw [htokens, hatom]
    exact fun n after _ => .inl (hread _ after)

theorem list (h : ∀ e ∈ items, Readable e) : Readable (.list items) := by
  refine of_reads rfl ⟨_, _, rfl, Nat.le_refl _⟩ ?_
  exact fun n after _ => reads_list fun e he => (h e he).inside n

theorem dict {entries : List (Expr × Expr)} (hkeys : ∀ entry ∈ entries, Readable entry.1)
    (hvalues : ∀ entry ∈ entries, Readable entry.2) : Readable (.dict entries) := by
  refine of_reads rfl ⟨_, _, rfl, Nat.le_refl _⟩ ?_
  exact fun n after _ => reads_dict (fun entry hentry => (hkeys entry hentry).inside n)
    fun entry hentry => (hvalues entry hentry).inside n

/-- Two operands with an operator between them that associates to the left. -/
theorem operator {place : Precedence} {t : Token} {combine : Expr → Expr → Expr}
    (h : Operator place t combine) (hleft : Readable left) (hright : Readable right)
    (hplace : (combine left right).precedence = place)
    (htokens : (combine left right).tokens = left.within place ++ t :: right.within place.next) :
    Readable (combine left right) := by
  subst hplace
  refine of_continues ?_ ?_
  · rw [htokens]
    exact (hleft.begins_within _).append
  · intro n after hends
    rw [htokens]
    have ht : Token.Ends (combine left right).precedence.next
        (t :: right.within (combine left right).precedence.next ++ after) := by
      refine Token.ends_cons.mpr ?_
      rw [h.binding_eq, Precedence.rank_next (Precedence.ne_atom_of_isChain h.isChain)]
      exact Nat.lt_succ_self _
    -- the left operand may itself be such a chain, so how far in it ends is not known
    refine (hleft.continues_within h.isChain ht).append ?_
    intro m
    apply h.continues
    rintro k rfl
    exact hright.reads_within _ k after hends

theorem binary (op : BinaryOp) (hleft : Readable left) (hright : Readable right) :
    Readable (.binary op left right) :=
  operator (.binary op) hleft hright rfl rfl

theorem and (hleft : Readable left) (hright : Readable right) : Readable (.and left right) :=
  operator .and hleft hright rfl rfl

theorem or (hleft : Readable left) (hright : Readable right) : Readable (.or left right) :=
  operator .or hleft hright rfl rfl

theorem not (h : Readable e) : Readable (.not e) := by
  refine of_reads rfl ⟨_, _, rfl, Nat.le_refl _⟩ ?_
  intro n after hends
  have hoperand : Reads (enter (below n) (·.negation)) n (e.within .negation) e after := by
    apply reads_enter
    rintro m rfl
    exact h.reads_within .negation m after hends
  refine .cons (q := enter (below n) (·.negation) >>= fun e => pure (.not e)) ?_ hoperand.map
  rw [ofDepth_eq]
  rfl

theorem signed (sign : Sign) (h : Readable e) : Readable (.signed sign e) := by
  refine of_reads rfl ⟨_, _, rfl, by cases sign <;> exact Nat.le_refl _⟩ ?_
  intro n after hends
  have hoperand : Reads (enter (below n) (·.signed)) n (e.within .sign) e after := by
    apply reads_enter
    rintro m rfl
    exact h.reads_within .sign m after hends
  exact reads_signed sign hoperand

theorem compare {first : Expr} {links : List (Comparison × Expr)} (hfirst : Readable first)
    (hne : links ≠ []) (hlinks : ∀ link ∈ links, Readable link.2) :
    Readable (.compare first links) := by
  have hbegins := (hfirst.begins_within .sum).mono (Precedence.rank_le_next .comparison)
  refine of_reads rfl hbegins.append ?_
  intro n after hends
  have hoperand := hfirst.reads_within .sum n _ (ends_linkTokens hends links)
  have hloop : Reads (fun tokens => linksLoop ((ofDepth n).parser .sum) tokens.length tokens)
      (n + 1) (linkTokens links) links after := by
    -- the fuel is the number of tokens, and each link has one at least
    refine .congr (q := linksLoop _ _) rfl (reads_linksLoop hlinks hends ?_)
    have hlength := length_links_le links
    rw [List.length_append]
    omega
  have hresult :=
    hloop.map (g := fun links => if links.isEmpty then first else .compare first links)
  simp only [List.isEmpty_eq_false_iff.mpr hne] at hresult
  exact hoperand.bind hresult

theorem choice {condition yes no : Expr} (hcondition : Readable condition) (hyes : Readable yes)
    (hno : Readable no) : Readable (.choice condition yes no) := by
  have hbegins := (hyes.begins_within .disjunction).mono (Precedence.rank_le_next .conditional)
  refine of_reads rfl hbegins.append ?_
  intro n after hends
  have hinside : Token.Ends .disjunction (.keyword .otherwise :: no.tokens ++ after) :=
    Token.ends_cons.mpr (by decide)
  have hif : Token.Ends .disjunction (.keyword .ifThen
      :: (condition.within .disjunction ++ .keyword .otherwise :: no.tokens) ++ after) :=
    Token.ends_cons.mpr (by decide)
  have helse : Reads (keyword .otherwise >>= fun _ => (ofDepth n).expression >>= fun no =>
      pure (Expr.choice condition yes no)) (n + 1) (.keyword .otherwise :: no.tokens)
      (.choice condition yes no) after :=
    .cons (bind_ok (keyword_cons .otherwise _)) (hno.reads_inside hends).map
  have hbehind := (hcondition.reads_within .disjunction n _ hinside).bind
    (f := fun condition => keyword .otherwise >>= fun _ => (ofDepth n).expression >>= fun no =>
      pure (Expr.choice condition yes no)) helse
  have hrest : Reads ((ofDepth n).choiceRest yes) (n + 1)
      (.keyword .ifThen :: (condition.within .disjunction ++ .keyword .otherwise :: no.tokens))
      (.choice condition yes no) after :=
    .mono (Nat.le_succ _) (.cons (bind_ok (eatKeyword_cons .ifThen _)) hbehind)
  rw [parser_eq rfl]
  exact (hyes.reads_within .disjunction n _ hif).bind hrest

theorem dot {target : Expr} (h : Readable target) (n : Text) : Readable (.dot target n) := by
  refine of_continues (h.begins_within .access).append ?_
  intro levels after hends
  have hdot : Token.Ends Precedence.access.next ([.symbol .dot, .name n] ++ after) :=
    Token.ends_cons.mpr (by decide)
  refine (h.continues_within rfl hdot).append ?_
  intro m
  refine .link (q := fun _ => Parser.name) (g := .dot target) ?_ ?_ ?_
  · rintro rfl
    exact ⟨_, rfl⟩
  · rintro k rfl
    exact bind_ok (eatSymbol_of_ne (hends.ne (Nat.le_refl _)))
  · rintro k rfl
    exact .inl rfl

theorem subscript {target index : Expr} (h : Readable target) (hindex : Readable index) :
    Readable (.subscript target index) := by
  refine of_continues (h.begins_within .access).append ?_
  intro levels after hends
  have hclose : Token.Ends .conditional ([.symbol .closeBracket] ++ after) :=
    Token.ends_cons.mpr (by decide)
  have hopen : Token.Ends Precedence.access.next
      (.symbol .openBracket :: (index.tokens ++ [.symbol .closeBracket]) ++ after) :=
    Token.ends_cons.mpr (by decide)
  refine (h.continues_within rfl hopen).append ?_
  intro m
  refine .link (q := fun layer => layer.expression >>= fun index =>
    symbol .closeBracket >>= fun _ => pure index) (g := .subscript target) ?_ ?_ ?_
  · rintro rfl
    exact ⟨_, rfl⟩
  · rintro k rfl
    simp only [Parser.bind_assoc]
    rfl
  · rintro k rfl
    refine .bind_succ (hindex.reads_inside hclose) (by simp) (.inl ?_)
    exact bind_ok (symbol_cons .closeBracket after)

theorem call (f : Text) (h : ∀ e ∈ items, Readable e) : Readable (.call f items) := by
  refine of_continues ⟨_, _, rfl, Precedence.rank_le_next .access⟩ ?_
  intro levels after hends
  have hname : Continues .access ((ofDepth levels).parser .access) levels [.name f] (.name f)
      (.symbol .openParen :: (itemTokens items ++ [.symbol .closeParen]) ++ after) :=
    .inl ⟨levels, Nat.le_add_right _ _, rfl⟩
  refine hname.append ?_
  intro m
  refine .link (q := fun layer => Parser.items layer.expression .closeParen) (g := .call f)
    ?_ ?_ ?_
  · rintro rfl
    exact ⟨_, rfl⟩
  · rintro k rfl
    rfl
  · rintro k rfl
    exact reads_items (fun e he => (h e he).inside k) (.inl rfl)

theorem method {target : Expr} (htarget : Readable target) (n : Text)
    (h : ∀ e ∈ items, Readable e) : Readable (.method target n items) := by
  refine of_continues (htarget.begins_within .access).append ?_
  intro levels after hends
  have hdot : Token.Ends Precedence.access.next (.symbol .dot :: .name n :: .symbol .openParen
      :: (itemTokens items ++ [.symbol .closeParen]) ++ after) :=
    Token.ends_cons.mpr (by decide)
  refine (htarget.continues_within rfl hdot).append ?_
  intro m
  refine .link (q := fun layer => Parser.name >>= fun _ => symbol .openParen >>= fun _ =>
    Parser.items layer.expression .closeParen) (g := .method target n) ?_ ?_ ?_
  · rintro rfl
    exact ⟨_, rfl⟩
  · rintro k rfl
    rfl
  · rintro k rfl
    refine .mono (Nat.le_add_right _ 2) (.cons (bind_ok rfl) (.cons (bind_ok (symbol_cons _ _)) ?_))
    exact reads_items (fun e he => (h e he).inside k) (.inl rfl)

end Readable

/-- **Every expression is readable.** -/
theorem Printable.readable {e : Expr} (h : Printable e) : Readable e := by
  induction h with
  | null => exact .of_token rfl rfl rfl fun _ _ => rfl
  | bool b => cases b <;> exact .of_token rfl rfl rfl fun _ _ => rfl
  | int hi => exact .of_token rfl rfl rfl fun _ _ => rfl
  | str s => exact .of_token rfl rfl rfl fun _ _ => rfl
  | name hn => exact .of_token rfl rfl rfl fun _ _ => rfl
  | list _ ih => exact .list ih
  | dict _ _ hkeys hvalues => exact .dict hkeys hvalues
  | dot _ _ ih => exact ih.dot _
  | subscript _ _ htarget hindex => exact htarget.subscript hindex
  | call _ _ ih => exact .call _ ih
  | method _ _ _ htarget hargs => exact htarget.method _ hargs
  | signed sign _ ih => exact ih.signed sign
  | binary op _ _ hleft hright => exact hleft.binary op hright
  | compare _ hne _ hfirst hlinks => exact hfirst.compare hne hlinks
  | not _ ih => exact ih.not
  | and _ _ hleft hright => exact hleft.and hright
  | or _ _ hleft hright => exact hleft.or hright
  | choice _ _ _ hcondition hyes hno => exact hcondition.choice hyes hno

/-! ### Plain tokens -/

theorem plain_fit {place own : Precedence} {tokens : List Token} (h : ∀ t ∈ tokens, t.Plain) :
    ∀ t ∈ place.fit own tokens, t.Plain := by
  rw [Precedence.fit]
  split
  · rw [List.forall_mem_append, List.forall_mem_cons]
    exact ⟨⟨trivial, h⟩, by simp⟩
  · exact h

theorem plain_itemTokens {items : List Expr} (h : ∀ e ∈ items, ∀ t ∈ e.tokens, t.Plain) :
    ∀ t ∈ itemTokens items, t.Plain := by
  induction items with
  | nil => simp [itemTokens]
  | cons e items ih =>
    obtain ⟨he, hitems⟩ := List.forall_mem_cons.mp h
    cases items with
    | nil => exact he
    | cons next items =>
      rw [itemTokens, List.forall_mem_append, List.forall_mem_cons]
      exact ⟨he, trivial, ih hitems⟩

theorem plain_entryTokens {entries : List (Expr × Expr)}
    (hkeys : ∀ entry ∈ entries, ∀ t ∈ entry.1.tokens, t.Plain)
    (hvalues : ∀ entry ∈ entries, ∀ t ∈ entry.2.tokens, t.Plain) :
    ∀ t ∈ entryTokens entries, t.Plain := by
  induction entries with
  | nil => simp [entryTokens]
  | cons entry entries ih =>
    obtain ⟨key, e⟩ := entry
    obtain ⟨hkey, hkeys⟩ := List.forall_mem_cons.mp hkeys
    obtain ⟨he, hvalues⟩ := List.forall_mem_cons.mp hvalues
    have hentry : ∀ t ∈ key.tokens ++ .symbol .colon :: e.tokens, t.Plain := by
      rw [List.forall_mem_append, List.forall_mem_cons]
      exact ⟨hkey, trivial, he⟩
    cases entries with
    | nil => exact hentry
    | cons next entries =>
      rw [entryTokens, List.forall_mem_append, List.forall_mem_cons]
      exact ⟨hentry, trivial, ih hkeys hvalues⟩

theorem plain_linkTokens {links : List (Comparison × Expr)}
    (h : ∀ link ∈ links, ∀ t ∈ link.2.tokens, t.Plain) : ∀ t ∈ linkTokens links, t.Plain := by
  induction links with
  | nil => simp [linkTokens]
  | cons link links ih =>
    obtain ⟨c, e⟩ := link
    obtain ⟨he, hlinks⟩ := List.forall_mem_cons.mp h
    have hc : ∀ t ∈ c.tokens, t.Plain := by cases c <;> simp [Comparison.tokens]
    rw [linkTokens, List.forall_mem_append, List.forall_mem_append]
    exact ⟨⟨hc, plain_fit he⟩, ih hlinks⟩

/-- All tokens of an expression are read back from their spellings. -/
theorem Printable.plain {e : Expr} (h : Printable e) : ∀ t ∈ e.tokens, t.Plain := by
  have hsymbol : ∀ s : Symbol, ∀ t ∈ [Token.symbol s], t.Plain := by simp
  induction h with
  | null | bool | str => simp [tokens, Value.tokens]
  | int hi => exact List.forall_mem_singleton.mpr hi
  | name hn => exact List.forall_mem_singleton.mpr hn
  | list _ ih =>
    rw [tokens, List.forall_mem_append, List.forall_mem_cons]
    exact ⟨⟨trivial, plain_itemTokens ih⟩, hsymbol _⟩
  | dict _ _ hkeys hvalues =>
    rw [tokens, List.forall_mem_append, List.forall_mem_cons]
    exact ⟨⟨trivial, plain_entryTokens hkeys hvalues⟩, hsymbol _⟩
  | dot _ hn ih =>
    rw [tokens, List.forall_mem_append, List.forall_mem_cons]
    exact ⟨plain_fit ih, trivial, List.forall_mem_singleton.mpr hn⟩
  | subscript _ _ htarget hindex =>
    rw [tokens, List.forall_mem_append, List.forall_mem_cons, List.forall_mem_append]
    exact ⟨plain_fit htarget, trivial, hindex, hsymbol _⟩
  | call hf _ ih =>
    rw [tokens, List.forall_mem_cons, List.forall_mem_cons, List.forall_mem_append]
    exact ⟨hf, trivial, plain_itemTokens ih, hsymbol _⟩
  | method _ hn _ htarget hargs =>
    rw [tokens, List.forall_mem_append, List.forall_mem_cons, List.forall_mem_cons,
      List.forall_mem_cons, List.forall_mem_append]
    exact ⟨plain_fit htarget, trivial, hn, trivial, plain_itemTokens hargs, hsymbol _⟩
  | signed sign _ ih =>
    rw [tokens, List.forall_mem_cons]
    exact ⟨by cases sign <;> trivial, plain_fit ih⟩
  | binary op _ _ hleft hright =>
    rw [tokens, List.forall_mem_append, List.forall_mem_cons]
    exact ⟨plain_fit hleft, by cases op <;> trivial, plain_fit hright⟩
  | compare _ _ _ hfirst hlinks =>
    rw [tokens, List.forall_mem_append]
    exact ⟨plain_fit hfirst, plain_linkTokens hlinks⟩
  | not _ ih =>
    rw [tokens, List.forall_mem_cons]
    exact ⟨trivial, plain_fit ih⟩
  | and _ _ hleft hright | or _ _ hleft hright =>
    rw [tokens, List.forall_mem_append, List.forall_mem_cons]
    exact ⟨plain_fit hleft, trivial, plain_fit hright⟩
  | choice _ _ _ hcondition hyes hno =>
    rw [tokens, List.forall_mem_append, List.forall_mem_cons, List.forall_mem_append,
      List.forall_mem_cons]
    exact ⟨plain_fit hyes, trivial, plain_fit hcondition, trivial, hno⟩

/-! ### Whole texts -/

/-- A whole text is read if its tokens are. -/
theorem parse_of_reads {α : Type} {p : Parser α} {levels : Nat} {tokens : List Token} {a : α}
    {text : Text} (h : Reads p levels tokens a []) (htext : Token.Spelled tokens text)
    (hplain : ∀ t ∈ tokens, t.Plain) :
    p.parse text = .ok a
      ∨ levels ≤ tokens.length ∧ ∃ rest, p.parse text = .error ⟨.tooDeep, rest⟩ := by
  obtain ⟨lexemes, hlexemes, rfl⟩ := Lexeme.exists_tokenize htext hplain
  rw [Reads, List.append_nil] at h
  obtain hp | ⟨hlength, left, hp⟩ := h
  · exact .inl (parse_eq_ok.mpr ⟨lexemes, hlexemes, hp⟩)
  · have hall : (p >>= fun a => finish >>= fun _ => pure a) (lexemes.map (·.token))
        = .error ⟨.tooDeep, left⟩ := bind_error hp
    refine .inr ⟨hlength, ?_⟩
    simp only [Parser.parse, hlexemes, bind, Except.bind]
    split
    · next heq => cases hall.symm.trans heq
    · next heq =>
      cases hall.symm.trans heq
      exact ⟨_, rfl⟩

/-- **Parsing undoes printing.** The printed text of an expression, and each other text that is
spelled from its tokens, is parsed as the expression; or it is rejected as nested too deeply, but
only if there are as many tokens as there may be levels. -/
theorem parse_print {e : Expr} (h : e.Printable) :
    Token.Spelled e.tokens e.print ∧ ∀ text, Token.Spelled e.tokens text →
      Expr.parse text = .ok e ∨ Expr.maxDepth ≤ e.tokens.length
        ∧ ∃ rest, Expr.parse text = .error ⟨.tooDeep, rest⟩ := by
  refine ⟨Token.spelled_write e.tokens, ?_⟩
  intro text htext
  exact parse_of_reads (h.readable.reads_inside (Token.ends_nil _)) htext h.plain

/-- Parentheses stand where the structure would be lost without them, and nowhere else. -/
theorem parse_print_choice :
    let yes := binary .sub (.name ['x']) (.binary .sub (.name ['y']) (.literal (.int 1)))
    let condition := Expr.and (.not (.or (.name ['p']) (.name ['q'])))
      (.compare (.name ['n']) [(.notMember, .list [.literal (.int 1), .literal (.int 2)])])
    let no := Expr.subscript (.method (.name ['s']) "split".toList [.literal (.str ['\x27'])])
      (.literal (.int 0))
    let e := Expr.choice condition yes no
    e.Printable
      ∧ e.print = "x-(y-1)if not(p or q)and n not in[1,2]else s.split(\x27\\\x27\x27)[0]".toList
      ∧ Expr.parse e.print = .ok e := by
  intro yes condition no e
  have hletters : ∀ n ∈ "xypqns".toList.map ([·]), Text.Identifier n := by decide +kernel
  have hletter : ∀ c ∈ "xypqns".toList, Printable (.name [c]) :=
    fun c hc => .name (hletters [c] (List.mem_map_of_mem hc))
  have hsplit : Text.Identifier "split".toList := by decide +kernel
  have hlist : Printable (.list [.literal (.int 1), .literal (.int 2)]) := by
    apply Printable.list
    rw [List.forall_mem_cons, List.forall_mem_singleton]
    exact ⟨.int (by decide), .int (by decide)⟩
  have hyes : yes.Printable :=
    .binary _ (hletter 'x' (by decide)) (.binary _ (hletter 'y' (by decide)) (.int (by decide)))
  have hcondition : condition.Printable :=
    .and (.not (.or (hletter 'p' (by decide)) (hletter 'q' (by decide))))
      (.compare (hletter 'n' (by decide)) (by simp) (List.forall_mem_singleton.mpr hlist))
  have hno : no.Printable :=
    .subscript (.method (hletter 's' (by decide)) hsplit (List.forall_mem_singleton.mpr (.str _)))
      (.int (by decide))
  have h : e.Printable := .choice hcondition hyes hno
  obtain ⟨hprint, hparse⟩ := parse_print h
  refine ⟨h, by decide +kernel, (hparse _ hprint).resolve_right ?_⟩
  rintro ⟨hlength, -⟩
  exact absurd hlength (by decide)

end Expr

end TemplateEngine
