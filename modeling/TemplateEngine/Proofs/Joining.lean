import TemplateEngine.Proofs.Counting
import TemplateEngine.Proofs.LongestMatch

/-!
# Statements in a row

Texts of single statements with semicolons between them are read as these statements, in order
(`Statement.parseAll_joined`). Splitting them into lexemes splits them at the semicolons, since no
other lexeme goes on with one (`LexemeClass.longest_before_semicolon`). Behind each statement the
parser stands at a semicolon or at the end (`Parser.pauses_statement`), and all levels are left
(`Counted.leads_statement`), so that it goes on as at the start.
-/

namespace TemplateEngine

/-! ## Lexemes before a semicolon -/

namespace LexemeClass

variable {cls : LexemeClass} {raw text : Text}

theorem semicolon_not_mem_number (h : number.Has raw) : ';' ∉ raw := by
  have hdigits : ∀ {digits : Text}, Decimal.isNumeral digits = true → ';' ∉ digits := by
    intro digits hdigits hmem
    exact absurd ((Decimal.isNumeral_iff.mp hdigits).2 ';' hmem) (by decide)
  obtain ⟨_, exponent, ⟨whole, fraction, hwhole, hfraction, rfl⟩, hexponent, rfl⟩ := h
  have hnotfraction : ';' ∉ fraction := by
    cases hfraction with
    | without => simp
    | point hpoint => simpa using hdigits hpoint
  have hnotexponent : ';' ∉ exponent := by
    cases hexponent with
    | without => simp
    | power hmark hsign hpower =>
      rcases hmark with rfl | rfl <;> rcases hsign with rfl | rfl | rfl <;>
        simpa using hdigits hpower
  simp [hdigits hwhole, hnotfraction, hnotexponent]

theorem semicolon_not_mem_name (h : name.Has raw) : ';' ∉ raw := by
  obtain ⟨c, rest, hc, hrest, rfl⟩ := h
  intro hmem
  rcases List.mem_cons.mp hmem with rfl | hmem
  · exact absurd hc (by decide +kernel)
  · exact absurd (hrest ';' hmem) (by decide +kernel)

/-- The only symbol with a semicolon in it is the semicolon. -/
theorem eq_semicolon_of_mem {s : Symbol} (h : ';' ∈ s.spelling) : s.spelling = [';'] := by
  cases s <;> first | rfl | exact absurd h (by decide)

/-- Of two strings at the start of a text neither is longer. -/
theorem string_unique {a b : Text} (ha : string.Has a) (hb : string.Has b) (hab : a <+: b) :
    a = b := by
  obtain ⟨c, rest, rfl, -, -⟩ := exists_of_has hb
  obtain ⟨-, value, after, hstring, heq⟩ := exists_string?_of_has ha hab
  obtain ⟨-, value', after', hstring', heq'⟩ := exists_string?_of_has hb List.prefix_rfl
  cases hstring.symm.trans hstring'
  exact (List.append_cancel_right (heq'.symm.trans heq)).symm

/-- **No lexeme runs over a semicolon.** What is longest at the start of a text is so before a
semicolon. -/
theorem longest_before_semicolon (h : Text.Longest cls.Has raw text) (more : Text) :
    Text.Longest cls.Has raw (text ++ ';' :: more) := by
  refine ⟨h.has, h.stands.trans (List.prefix_append _ _), fun other hother hhas => ?_⟩
  rcases Nat.lt_or_ge text.length other.length with hlt | hle
  · -- such a text would hold the semicolon
    obtain ⟨tail, rfl⟩ : text ++ [';'] <+: other := by
      refine List.prefix_of_prefix_length_le ⟨more, by simp⟩ hother ?_
      rw [List.length_append]
      exact hlt
    have hmem : ';' ∈ text ++ [';'] ++ tail := by simp
    cases cls with
    | number => exact absurd hmem (semicolon_not_mem_number hhas)
    | name => exact absurd hmem (semicolon_not_mem_name hhas)
    | symbol =>
      obtain ⟨s, hs⟩ := hhas
      have hone := hs.trans (eq_semicolon_of_mem (hs ▸ hmem))
      obtain ⟨rfl, -⟩ : text = [] ∧ tail = [] := by
        have hlength := congrArg List.length hone
        simp only [List.length_append, List.length_cons, List.length_nil] at hlength
        exact ⟨List.length_eq_zero_iff.mp (by omega), List.length_eq_zero_iff.mp (by omega)⟩
      obtain ⟨c, rest, rfl, -⟩ := exists_of_has h.has
      exact absurd h.stands (by simp)
    | string =>
      have hprefix : raw <+: text ++ [';'] ++ tail := by
        rw [List.append_assoc]
        exact h.stands.trans (List.prefix_append _ _)
      exact Nat.le_of_eq (congrArg List.length (string_unique h.has hhas hprefix).symm)
  · exact h.length_le other (List.prefix_of_prefix_length_le hother (List.prefix_append _ _) hle)
      hhas

/-- Only a symbol stands for a symbol. -/
theorem Means.eq_spelling {t : Token} {s : Symbol} (h : cls.Means raw t) (ht : t = .symbol s) :
    raw = s.spelling := by
  cases h with
  | symbol hs =>
    cases ht
    exact hs
  | name =>
    unfold Token.ofName at ht
    split at ht <;> cases ht
  | _ => cases ht

theorem semicolon_longest (more : Text) : Text.Longest symbol.Has [';'] (';' :: more) := by
  refine ⟨⟨.semicolon, rfl⟩, ⟨more, rfl⟩, ?_⟩
  rintro _ hother ⟨s, rfl⟩
  obtain ⟨c, rest, hs, -⟩ := Token.exists_spelling_symbol s
  have hc : c = ';' := (List.cons_prefix_cons.mp (hs ▸ hother)).1
  have hone : s.spelling = [';'] := eq_semicolon_of_mem (by simp [hs, hc])
  rw [hone]

end LexemeClass

namespace Lexeme

variable {text more : Text} {lexemes others : List Lexeme} {l : Lexeme}

/-- Two texts with a semicolon between them are laid out in the lexemes of both. -/
theorem Laid.join (h : Laid text lexemes []) (hmore : Laid more others []) :
    ∃ joined, Laid (text ++ ';' :: more) joined []
      ∧ joined.map (·.token)
        = lexemes.map (·.token) ++ .symbol .semicolon :: others.map (·.token) := by
  obtain ⟨rest, hrest, hlaid⟩ : ∃ rest, rest = [] ∧ Laid text lexemes rest := ⟨[], rfl, h⟩
  clear h
  induction hlaid with
  | @nil blanks rest hblanks =>
    subst hrest
    have hlaid := @Laid.cons blanks [] ⟨.symbol .semicolon, [';'], more⟩ others .symbol hblanks
      (LexemeClass.semicolon_longest more) (.symbol rfl) hmore
    exact ⟨_, by rwa [List.append_nil], rfl⟩
  | @cons blanks rest l lexemes cls hblanks hlongest hmeans _ ih =>
    obtain ⟨joined, hjoined, htokens⟩ := ih hrest
    have hsource : source { l with rest := l.rest ++ ';' :: more } = l.source ++ ';' :: more := by
      rw [source, source, List.append_assoc]
    have hlaid := @Laid.cons blanks [] { l with rest := l.rest ++ ';' :: more } joined cls hblanks
      (hsource ▸ LexemeClass.longest_before_semicolon hlongest more) hmeans hjoined
    rw [hsource, ← List.append_assoc] at hlaid
    exact ⟨_, hlaid, by rw [List.map_cons, htokens]; rfl⟩

/-- Splitting a text at a semicolon between two texts. -/
theorem tokenize_join (h : tokenize text = .ok lexemes) (hmore : tokenize more = .ok others) :
    ∃ joined, tokenize (text ++ ';' :: more) = .ok joined
      ∧ joined.map (·.token)
        = lexemes.map (·.token) ++ .symbol .semicolon :: others.map (·.token) := by
  obtain ⟨joined, hjoined, htokens⟩ := (tokenize_eq_ok.mp h).join (tokenize_eq_ok.mp hmore)
  exact ⟨joined, tokenize_eq_ok.mpr hjoined, htokens⟩

theorem Laid.isBlank (h : Laid text lexemes more) (hlexemes : lexemes = []) (hmore : more = []) :
    ∀ c ∈ text, Character.isBlank c = true := by
  cases h with
  | nil hblanks =>
    rw [hmore, List.append_nil]
    exact hblanks
  | cons => cases hlexemes

/-- Behind the last lexeme there are only blanks. -/
theorem Laid.exists_last (h : Laid text lexemes []) (hl : lexemes.getLast? = some l) :
    ∃ before blanks cls, text = before ++ l.raw ++ blanks
      ∧ (∀ c ∈ blanks, Character.isBlank c = true) ∧ LexemeClass.Means cls l.raw l.token := by
  obtain ⟨rest, hrest, hlaid⟩ : ∃ rest, rest = [] ∧ Laid text lexemes rest := ⟨[], rfl, h⟩
  clear h
  induction hlaid with
  | nil => cases hl
  | @cons blanks rest first lexemes cls hblanks hlongest hmeans hlater ih =>
    subst hrest
    cases lexemes with
    | nil =>
      obtain rfl : first = l := Option.some.inj hl
      refine ⟨blanks, first.rest, cls, ?_, hlater.isBlank rfl rfl, hmeans⟩
      rw [source, List.append_assoc]
    | cons second lexemes =>
      rw [List.getLast?_cons_cons] at hl
      obtain ⟨before, last, cls', hbefore, hlast, hmeans'⟩ := ih hl rfl
      refine ⟨blanks ++ first.raw ++ before, last, cls', ?_, hlast, hmeans'⟩
      rw [source, hbefore]
      simp only [List.append_assoc]

/-- A text whose last lexeme is a semicolon ends with one. -/
theorem getLast?_trimEnd (h : tokenize text = .ok lexemes)
    (hlast : (lexemes.map (·.token)).getLast? = some (.symbol .semicolon)) :
    (text.trimEnd Character.isBlank).getLast? = some ';' := by
  rw [List.getLast?_map] at hlast
  obtain ⟨l, hl, htoken⟩ := Option.map_eq_some_iff.mp hlast
  obtain ⟨before, blanks, cls, rfl, hblanks, hmeans⟩ := (tokenize_eq_ok.mp h).exists_last hl
  have hraw : l.raw = [';'] := hmeans.eq_spelling htoken
  have htrim : Text.trimEnd (before ++ l.raw ++ blanks) Character.isBlank = before ++ [';'] := by
    rw [Text.trimEnd, List.reverse_append, List.dropWhile_append_of_pos (by simpa using hblanks),
      hraw, List.reverse_append]
    simp [Character.isBlank]
  rw [htrim, List.getLast?_concat]

end Lexeme

/-! ## Statements before a semicolon -/

namespace Parser

variable {tokens more : List Token} {s : Statement} {ss : List Statement}

/-- All the tokens are one statement. -/
structure IsStatement (tokens : List Token) (s : Statement) : Prop where
  ne_nil : tokens ≠ []
  reads : statement tokens = .ok (s, [])

/-- With a fuel for every token the loop reads the tokens as these statements. -/
def Lists (tokens : List Token) (ss : List Statement) : Prop :=
  ∀ fuel, tokens.length ≤ fuel → statementsLoop fuel tokens = .ok (ss, [])

theorem lists_nil : Lists [] [] := by
  intro fuel _
  cases fuel <;> rfl

/-- A statement at the end. -/
theorem IsStatement.lists (h : IsStatement tokens s) : Lists tokens [s] := by
  intro fuel hfuel
  obtain ⟨t, rest, rfl⟩ := List.exists_cons_of_ne_nil h.ne_nil
  obtain ⟨fuel, rfl⟩ := Nat.exists_eq_add_one_of_ne_zero (Nat.ne_zero_of_lt hfuel)
  rw [statementsLoop_cons, bind_ok h.reads]
  exact bind_ok (lists_nil fuel (Nat.zero_le fuel))

/-- A statement before a semicolon, and what follows. -/
theorem IsStatement.lists_cons (h : IsStatement tokens s) (hmore : Lists more ss) :
    Lists (tokens ++ .symbol .semicolon :: more) (s :: ss) := by
  intro fuel hfuel
  have hreads := (pauses_statement tokens s [] h.reads).2 more
  obtain ⟨t, rest, rfl⟩ := List.exists_cons_of_ne_nil h.ne_nil
  obtain ⟨fuel, rfl⟩ := Nat.exists_eq_add_one_of_ne_zero (Nat.ne_zero_of_lt hfuel)
  simp only [List.length_append, List.length_cons] at hfuel
  rw [List.cons_append] at hreads ⊢
  rw [statementsLoop_cons, bind_ok hreads, List.nil_append, bind_ok (eatSymbol_cons _ _)]
  exact bind_ok (hmore fuel (by omega))

/-- Nothing is listed only where there is nothing. -/
theorem eq_nil_of_statementsLoop {fuel : Nat} (hfuel : tokens.length ≤ fuel)
    (h : statementsLoop fuel tokens = .ok ([], more)) : tokens = [] := by
  rcases tokens with _ | ⟨t, tokens⟩
  · rfl
  obtain ⟨fuel, rfl⟩ := Nat.exists_eq_add_one_of_ne_zero (Nat.ne_zero_of_lt hfuel)
  rw [statementsLoop_cons] at h
  obtain ⟨s, rest, -, h⟩ := bind_eq_ok.mp h
  obtain ⟨found, after, -, h⟩ := bind_eq_ok.mp h
  cases found with
  | true =>
    obtain ⟨ss, last, -, h⟩ := bind_eq_ok.mp h
    cases h
  | false =>
    obtain ⟨_, _, -, h⟩ := bind_eq_ok.mp h
    obtain ⟨ss, last, -, h⟩ := bind_eq_ok.mp h
    cases h

/-- One statement is read up to the end, or up to a semicolon there. -/
theorem isStatement_of_statements (h : statements tokens = .ok ([s], []))
    (hlast : tokens.getLast? ≠ some (.symbol .semicolon)) : IsStatement tokens s := by
  obtain ⟨ss, middle, hloop, hss⟩ := bind_eq_ok.mp h
  split at hss <;> cases hss
  rcases tokens with _ | ⟨t, tokens⟩
  · cases hloop
  rw [List.length_cons, statementsLoop_cons] at hloop
  obtain ⟨s', rest, hs, hloop⟩ := bind_eq_ok.mp hloop
  obtain ⟨found, after, hfound, hloop⟩ := bind_eq_ok.mp hloop
  have hsuffix := (pauses_statement (t :: tokens) s' rest hs).1
  cases found with
  | true =>
    -- then the semicolon is the last token
    obtain ⟨others, last, hothers, heq⟩ := bind_eq_ok.mp hloop
    cases heq
    obtain rfl : rest = .symbol .semicolon :: after := eq_of_eatSymbol hfound
    have hlength := hsuffix.length_le
    simp only [List.length_cons] at hlength
    obtain rfl := eq_nil_of_statementsLoop (by omega) hothers
    obtain ⟨front, hfront⟩ := hsuffix
    rw [← hfront, List.getLast?_concat] at hlast
    exact absurd rfl hlast
  | false =>
    obtain rfl : rest = after := eq_of_eatSymbol hfound
    obtain ⟨_, last, hfinish, hloop⟩ := bind_eq_ok.mp hloop
    obtain ⟨rfl, rfl⟩ := eq_nil_of_finish hfinish
    change (statementsLoop tokens.length >>= fun ss => pure (s' :: ss)) [] = _ at hloop
    rw [bind_ok (lists_nil _ (Nat.zero_le _))] at hloop
    cases hloop
    exact ⟨List.cons_ne_nil _ _, hs⟩

end Parser

namespace Statement

open TemplateEngine.Parser

variable {text more : Text} {s : Statement} {ss : List Statement}

/-- The text is split into the tokens of one statement. -/
def Alone (text : Text) (s : Statement) : Prop :=
  ∃ lexemes, Lexeme.tokenize text = .ok lexemes ∧ IsStatement (lexemes.map (·.token)) s

/-- The text is split into tokens that are read as these statements. -/
def Listed (text : Text) (ss : List Statement) : Prop :=
  ∃ lexemes, Lexeme.tokenize text = .ok lexemes ∧ Lists (lexemes.map (·.token)) ss

theorem Listed.parseAll (h : Listed text ss) (hne : ss ≠ []) : parseAll text = .ok ss := by
  obtain ⟨lexemes, hlexemes, hlists⟩ := h
  refine parse_eq_ok.mpr ⟨lexemes, hlexemes, ?_⟩
  refine (bind_ok (p := fun tokens => _) (hlists _ (Nat.le_refl _))).trans ?_
  rw [if_neg (mt List.isEmpty_iff.mp hne)]
  rfl

theorem alone_of_parseAll (h : parseAll text = .ok [s])
    (hlast : (text.trimEnd Character.isBlank).getLast? ≠ some ';') : Alone text s := by
  obtain ⟨lexemes, hlexemes, hstatements⟩ := parse_eq_ok.mp h
  refine ⟨lexemes, hlexemes, isStatement_of_statements hstatements fun hsemicolon => ?_⟩
  exact hlast (Lexeme.getLast?_trimEnd hlexemes hsemicolon)

theorem Alone.listed (h : Alone text s) : Listed text [s] := by
  obtain ⟨lexemes, hlexemes, hstatement⟩ := h
  exact ⟨lexemes, hlexemes, hstatement.lists⟩

theorem Alone.cons (h : Alone text s) (hmore : Listed more ss) :
    Listed (text ++ ';' :: more) (s :: ss) := by
  obtain ⟨lexemes, hlexemes, hstatement⟩ := h
  obtain ⟨others, hothers, hlists⟩ := hmore
  obtain ⟨joined, hjoined, htokens⟩ := Lexeme.tokenize_join hlexemes hothers
  refine ⟨joined, hjoined, ?_⟩
  rw [htokens]
  exact hstatement.lists_cons hlists

theorem listed_nil : Listed [] [] := ⟨[], Lexeme.tokenize_nil, lists_nil⟩

/-- Texts of statements with semicolons between them, and perhaps one at the end. -/
theorem listed_joined {pieces : List (Text × Statement)} (hne : pieces ≠ [])
    (h : ∀ piece ∈ pieces, Alone piece.1 piece.2) {last : Text} (hlast : last = [] ∨ last = [';']) :
    Listed ([';'].intercalate (pieces.map (·.1)) ++ last) (pieces.map (·.2)) := by
  induction pieces with
  | nil => exact absurd rfl hne
  | cons piece pieces ih =>
    obtain ⟨hpiece, hpieces⟩ := List.forall_mem_cons.mp h
    cases pieces with
    | nil =>
      rcases hlast with rfl | rfl
      · simpa using hpiece.listed
      · simpa using hpiece.cons listed_nil
    | cons second pieces =>
      have hrest := hpiece.cons (ih (List.cons_ne_nil _ _) hpieces)
      simpa [List.intercalate_cons_cons] using hrest

/-- **Statement lists compose.** Texts of single statements, none of which ends with a semicolon,
are read in order if they are joined with semicolons, whether another one follows or not. What one
of them nests does not count for the next: counting the levels in one counter comes to the same on
all texts, for it is put back behind every statement and by every parser for a part of one, wherever
it starts. -/
theorem parseAll_joined {pieces : List (Text × Statement)} (hne : pieces ≠ [])
    (hpieces : ∀ piece ∈ pieces, parseAll piece.1 = .ok [piece.2]
      ∧ (piece.1.trimEnd Character.isBlank).getLast? ≠ some ';') :
    parseAll ([';'].intercalate (pieces.map (·.1))) = .ok (pieces.map (·.2))
      ∧ parseAll ([';'].intercalate (pieces.map (·.1)) ++ [';']) = .ok (pieces.map (·.2))
      ∧ (∀ text, ∃ enough, ∀ steps, enough ≤ steps →
        Counted.parse (Counted.statements steps) text = some (parseAll text))
      ∧ Counted.Restores 0 Counted.statement
      ∧ ∀ entered ≤ Expr.maxDepth, ∀ (α : Type) (part : Nat → Counted α),
        Counted.IsPart part → Counted.Restores entered part := by
  have halone : ∀ piece ∈ pieces, Alone piece.1 piece.2 := by
    intro piece hpiece
    obtain ⟨hparse, hlast⟩ := hpieces piece hpiece
    exact alone_of_parseAll hparse hlast
  have hstatements : pieces.map (·.2) ≠ [] := by simpa using hne
  refine ⟨?_, ?_, Counted.leads_statements.parse, Counted.leads_statement.restores, ?_⟩
  · have hlisted := listed_joined hne halone (.inl rfl)
    rw [List.append_nil] at hlisted
    exact hlisted.parseAll hstatements
  · exact (listed_joined hne halone (.inr rfl)).parseAll hstatements
  · exact fun entered hentered α part hpart => hpart.restores hentered

/-- Two statements that need most of the levels each. -/
theorem parseAll_joined_deep :
    let deep : Text := List.replicate 90 '(' ++ 'x' :: List.replicate 90 ')'
    let assigned : Text := "y = ".toList ++ deep
    ∃ first second, parseAll deep = .ok [first] ∧ parseAll assigned = .ok [second]
      ∧ parseAll (deep ++ ';' :: assigned) = .ok [first, second]
      ∧ parseAll (deep ++ ';' :: (assigned ++ [';'])) = .ok [first, second] := by
  intro deep assigned
  have hdeep : (parseAll deep).map List.length = .ok 1 := by decide +kernel
  have hassigned : (parseAll assigned).map List.length = .ok 1 := by decide +kernel
  obtain ⟨firsts, hfirsts, hfirst⟩ := exists_of_map_eq_ok hdeep
  obtain ⟨seconds, hseconds, hsecond⟩ := exists_of_map_eq_ok hassigned
  obtain ⟨first, rfl⟩ := List.length_eq_one_iff.mp hfirst
  obtain ⟨second, rfl⟩ := List.length_eq_one_iff.mp hsecond
  have hends : ∀ text, text = deep ∨ text = assigned →
      (text.trimEnd Character.isBlank).getLast? ≠ some ';' := by
    rintro text (rfl | rfl) <;> decide +kernel
  have hpieces : ∀ piece ∈ [(deep, first), (assigned, second)], parseAll piece.1 = .ok [piece.2]
      ∧ (piece.1.trimEnd Character.isBlank).getLast? ≠ some ';' := by
    simp [hfirsts, hseconds, hends]
  have htexts : ∀ a b : Text, [';'].intercalate [a, b] = a ++ ';' :: b := by simp
  obtain ⟨hjoined, hlast, -⟩ := parseAll_joined (List.cons_ne_nil _ _) hpieces
  simp only [List.map_cons, List.map_nil, htexts] at hjoined hlast
  rw [List.append_assoc, List.cons_append] at hlast
  exact ⟨first, second, hfirsts, hseconds, hjoined, hlast⟩

end Statement

end TemplateEngine
