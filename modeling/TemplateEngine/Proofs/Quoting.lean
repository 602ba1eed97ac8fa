import TemplateEngine.Expression.Eval
import TemplateEngine.Proofs.Parsing

/-!
# Values are read back

The text that a value has inside lists and dictionaries is the text of an expression, and the
value of this expression is the value itself in every scope (`Value.parse_quoted`). The expression
has the shape of the value (`Value.expr`); only a negative integer is another one with a sign.

Three things are shown of it by induction on the value: its tokens are spelled by the text of the
value (`Quotable.spelled`), the parser reads them wherever two more levels are left than lists and
dictionaries nest (`Quotable.read_inside`), and it has the value (`Quotable.eval`).
-/

namespace TemplateEngine

namespace Value

mutual

/-- The expression that is written like the value. -/
def expr : Value → Expr
  | list items => .list (exprItems items)
  | dict entries => .dict (exprEntries entries)
  | int i => if i.toInt < 0 then .signed .minus (.literal (.int (-i))) else .literal (.int i)
  | v => .literal v

/-- The expressions of the items of a list. -/
def exprItems : List Value → List Expr
  | [] => []
  | v :: items => expr v :: exprItems items

/-- The expressions of the entries of a dictionary. Their keys are strings. -/
def exprEntries : List (Text × Value) → List (Expr × Expr)
  | [] => []
  | (key, v) :: entries => (.literal (.str key), expr v) :: exprEntries entries

end

/-- The values without floats and without the least integer, with lists and dictionaries nested
at most `n` deep. -/
inductive Quotable : Nat → Value → Prop
  | null {n : Nat} : Quotable n .null
  | bool {n : Nat} (b : Bool) : Quotable n (.bool b)
  | int {n : Nat} {i : Int64} (hi : i ≠ Int64.minValue) : Quotable n (.int i)
  | str {n : Nat} (s : Text) : Quotable n (.str s)
  | list {n : Nat} {items : List Value} (hitems : ∀ v ∈ items, Quotable n v) :
    Quotable (n + 1) (.list items)
  | dict {n : Nat} {entries : Entries Value} (hordered : entries.Ordered)
    (hvalues : ∀ entry ∈ entries, Quotable n entry.2) : Quotable (n + 1) (.dict entries)

theorem exprItems_eq_map (items : List Value) : exprItems items = items.map expr := by
  induction items with
  | nil => rfl
  | cons v items ih => simp [exprItems, ih]

theorem exprEntries_eq_map (entries : Entries Value) :
    exprEntries entries = entries.map fun entry => (.literal (.str entry.1), entry.2.expr) := by
  induction entries with
  | nil => rfl
  | cons entry entries ih => simp [exprEntries, ih]

variable {n : Nat} {v : Value}

/-! ## Negative integers -/

theorem toInt_neg {i : Int64} (hi : i ≠ Int64.minValue) : (-i).toInt = -i.toInt := by
  have hle := i.le_toInt
  have hlt := i.toInt_lt
  have hleast : i.toInt ≠ -9223372036854775808 := fun h => hi (Int64.toInt_inj.mp h)
  rw [Int64.toInt_neg, Int.bmod_eq_of_le] <;> omega

/-- The sign and the digits of a negative integer. -/
theorem ofInt_neg {i : Int} (h : i < 0) : Decimal.ofInt i = '-' :: Decimal.ofInt (-i) := by
  obtain ⟨k, rfl⟩ := Int.eq_negSucc_of_lt_zero h
  rfl

/-! ## Their texts -/

/-- What may follow a value in a list or dictionary. -/
def Delimited (text : Text) : Prop := ∀ c ∈ text.head?, c = ',' ∨ c = ']' ∨ c = '}'

theorem apart_of_delimited {t : Token} {text : Text} (ht : ∀ s, t ≠ .symbol s)
    (h : Delimited text) : t.apart text = true := by
  have hname : ∀ c, c = ',' ∨ c = ']' ∨ c = '}' → Token.continuesName c = false := by
    rintro c (rfl | rfl | rfl) <;> decide +kernel
  have hhead : text.head?.all (fun c => !Token.continuesName c) = true := by
    rw [Option.all_eq_true]
    exact fun c hc => by rw [hname c (h c hc), Bool.not_false]
  cases t with
  | int i =>
    cases text with
    | nil => rfl
    | cons c text => rcases h c rfl with rfl | rfl | rfl <;> rfl
  | symbol s => exact absurd rfl (ht s)
  | name n | keyword k => exact hhead
  | float x | str s => rfl

variable {tokens : List Token} {text : Text}

/-- Brackets, commas and colons are no part of another symbol. -/
theorem spelled_bracket {s : Symbol} (hs : s ∈ [Symbol.openBracket, .closeBracket, .openBrace,
    .closeBrace, .comma, .colon]) (h : Token.Spelled tokens text) :
    Token.Spelled (.symbol s :: tokens) (s.spelling ++ text) := by
  refine h.token ?_
  simp only [List.mem_cons, List.not_mem_nil, or_false] at hs
  cases text with
  | nil => rcases hs with rfl | rfl | rfl | rfl | rfl | rfl <;> rfl
  | cons c text => rcases hs with rfl | rfl | rfl | rfl | rfl | rfl <;> rfl

/-- A minus and the digits behind it are two tokens. -/
theorem apart_minus (k : Nat) (text : Text) :
    (Token.symbol .minus).apart (Nat.toDigits 10 k ++ text) = true := by
  obtain ⟨c, rest, hdigits, hc⟩ := Decimal.exists_toDigits_eq_cons k
  have hequal : c ≠ '=' := by
    rintro rfl
    cases hc
  rw [hdigits]
  simp [Token.apart, Symbol.all, Symbol.spelling, hequal.symm]

/-- The text of a value spells its expression before what may follow a value. -/
def Spells (v : Value) : Prop := ∀ tokens text, Token.Spelled tokens text → Delimited text →
  Token.Spelled (v.expr.tokens ++ tokens) (v.quoted ++ text)

theorem spells_of_token {t : Token} (htokens : v.expr.tokens = [t])
    (hquoted : v.quoted = t.spelling) (ht : ∀ s, t ≠ .symbol s) : v.Spells := by
  intro tokens text h hdelimited
  rw [htokens, hquoted]
  exact h.token (apart_of_delimited ht hdelimited)

theorem spells_int {i : Int64} (hi : i ≠ Int64.minValue) : (int i).Spells := by
  by_cases hneg : i.toInt < 0
  · intro tokens text h hdelimited
    have hdigits := h.token (t := .int (-i)) (apart_of_delimited (by simp) hdelimited)
    obtain ⟨k, hk⟩ := Int.eq_ofNat_of_zero_le (a := -i.toInt) (by omega)
    have hspelling : (Token.int (-i)).spelling = Nat.toDigits 10 k := by
      rw [Token.spelling, toInt_neg hi, hk]
      rfl
    have hquoted : (int i).quoted = '-' :: Nat.toDigits 10 k := by
      rw [quoted, ofInt_neg hneg, hk]
      rfl
    have htokens : (int i).expr.tokens = [.symbol .minus, .int (-i)] := by
      rw [expr, if_pos hneg]
      rfl
    rw [hspelling] at hdigits
    rw [htokens, hquoted]
    exact hdigits.token (apart_minus k text)
  · refine spells_of_token (t := .int i) ?_ rfl (by simp)
    rw [expr, if_neg hneg]
    rfl

/-- Items with commas between them are spelled. -/
theorem spelled_items {items : List Value} (hitems : ∀ v ∈ items, v.Spells)
    (h : Token.Spelled tokens text) (hdelimited : Delimited text) :
    Token.Spelled (Expr.itemTokens (items.map expr) ++ tokens)
      (", ".toList.intercalate (items.map quoted) ++ text) := by
  induction items with
  | nil => exact h
  | cons v items ih =>
    have hv := hitems v List.mem_cons_self
    cases items with
    | nil =>
      rw [List.map_singleton, List.map_singleton, List.intercalate_singleton]
      exact hv _ _ h hdelimited
    | cons next items =>
      have hnext := ih fun v hv => hitems v (List.mem_cons_of_mem _ hv)
      have hcomma := spelled_bracket (s := .comma) (by simp) hnext.blank
      have hall := hv _ _ hcomma fun c hc => .inl (Option.some.inj hc).symm
      simpa [Expr.itemTokens, List.intercalate_cons_cons, Symbol.spelling] using hall

/-- A key and its value are spelled. -/
theorem spelled_entry (key : Text) (hv : v.Spells) (h : Token.Spelled tokens text)
    (hdelimited : Delimited text) :
    Token.Spelled (.str key :: .symbol .colon :: (v.expr.tokens ++ tokens))
      (key.quoted ++ ':' :: ' ' :: (v.quoted ++ text)) := by
  have hcolon := spelled_bracket (s := .colon) (by simp) (hv _ _ h hdelimited).blank
  exact hcolon.token (t := .str key) rfl

/-- Entries with commas between them are spelled. -/
theorem spelled_entries {entries : Entries Value} (hvalues : ∀ entry ∈ entries, entry.2.Spells)
    (h : Token.Spelled tokens text) (hdelimited : Delimited text) :
    Token.Spelled (Expr.entryTokens (exprEntries entries) ++ tokens)
      (", ".toList.intercalate (quotedEntries entries) ++ text) := by
  induction entries with
  | nil => exact h
  | cons entry entries ih =>
    obtain ⟨key, v⟩ := entry
    have hv : v.Spells := hvalues _ List.mem_cons_self
    cases entries with
    | nil =>
      have hlast := spelled_entry key hv h hdelimited
      simpa [exprEntries, quotedEntries, Expr.entryTokens, Expr.tokens, Value.tokens] using hlast
    | cons next entries =>
      have hnext := ih fun entry hentry => hvalues entry (List.mem_cons_of_mem _ hentry)
      have hcomma := spelled_bracket (s := .comma) (by simp) hnext.blank
      have hall := spelled_entry key hv hcomma fun c hc => .inl (Option.some.inj hc).symm
      simpa [exprEntries, quotedEntries, Expr.entryTokens, Expr.tokens, Value.tokens,
        List.intercalate_cons_cons, Symbol.spelling] using hall

/-- **The text of a value spells its expression.** -/
theorem Quotable.spells (h : Quotable n v) : v.Spells := by
  induction h with
  | null => exact spells_of_token rfl rfl (by simp)
  | bool b => cases b <;> exact spells_of_token rfl rfl (by simp)
  | int hi => exact spells_int hi
  | str s => exact spells_of_token rfl rfl (by simp)
  | list _ ih =>
    intro tokens text h hdelimited
    have hclose := spelled_bracket (s := .closeBracket) (by simp) h
    have hitems := spelled_items ih hclose fun c hc => .inr (.inl (Option.some.inj hc).symm)
    have hopen := spelled_bracket (s := .openBracket) (by simp) hitems
    simpa [expr, quoted, exprItems_eq_map, quotedItems_eq_map, Expr.tokens, Symbol.spelling]
      using hopen
  | dict _ _ ih =>
    intro tokens text h hdelimited
    have hclose := spelled_bracket (s := .closeBrace) (by simp) h
    have hentries := spelled_entries ih hclose fun c hc => .inr (.inr (Option.some.inj hc).symm)
    have hopen := spelled_bracket (s := .openBrace) (by simp) hentries
    simpa [expr, quoted, Expr.tokens, Symbol.spelling] using hopen

/-! ## Their expressions are read -/

/-- All parts of the expression can be printed. -/
theorem Quotable.printable (h : Quotable n v) : v.expr.Printable := by
  induction h with
  | null => exact .null
  | bool b => exact .bool b
  | @int _ i hi =>
    rw [expr]
    split
    · next hneg => exact .signed .minus (.int (by rw [toInt_neg hi]; omega))
    · next hpos => exact .int (Int.not_lt.mp hpos)
  | str s => exact .str s
  | list _ ih =>
    rw [expr, exprItems_eq_map]
    exact .list (List.forall_mem_map.mpr ih)
  | dict _ _ ih =>
    rw [expr, exprEntries_eq_map]
    exact .dict (List.forall_mem_map.mpr fun _ _ => .str _) (List.forall_mem_map.mpr ih)

section

open Layer TemplateEngine.Parser

variable {e : Expr} {levels m : Nat}

/-- What is read in a place is read in brackets if a level is left. -/
theorem read_inside_succ (place : Precedence) (hbegins : Token.Begins place e.tokens)
    (h : ∀ after, Token.Ends place after →
      Reads ((ofDepth m).parser place) levels e.tokens e after) :
    Expr.ReadInside (ofDepth (m + 1)).expression levels e := by
  have hplace := Precedence.rank_pos place
  exact ⟨hbegins.mono hplace, fun after hends =>
    reads_of_tighter (h after (hends.mono hplace)) hbegins hends hplace⟩

theorem read_inside_literal {w : Value} {t : Token} (htokens : w.tokens = [t])
    (ht : t.opens = Precedence.atom.rank) (hread : ∀ (expression : Parser Expr) after,
      atom expression (t :: after) = .ok (.literal w, after)) :
    Expr.ReadInside (ofDepth (m + 1)).expression levels (.literal w) := by
  have hliteral : (Expr.literal w).tokens = [t] := htokens
  refine read_inside_succ .atom ⟨t, [], hliteral, ht.ge⟩ ?_
  intro after _
  rw [hliteral]
  exact .inl (hread _ after)

/-- A negative integer takes a level for its sign. -/
theorem read_inside_negative (i : Int64) : Expr.ReadInside (ofDepth (m + 2)).expression levels
    (.signed .minus (.literal (.int i))) := by
  refine read_inside_succ .sign ⟨_, _, rfl, Nat.le_refl _⟩ ?_
  intro after hends
  have hdigits : Reads ((ofDepth m).parser .atom) levels [.int i] (.literal (.int i)) after :=
    .inl rfl
  have hoperand : Reads ((ofDepth m).parser .sign) levels [.int i] (.literal (.int i)) after :=
    reads_of_tighter hdigits ⟨_, _, rfl, Nat.le_refl _⟩ hends (by decide)
  have hsigned := Expr.reads_signed (n := m + 1) (e := .literal (.int i)) .minus hoperand
  exact hsigned.mono (Nat.le_succ levels)

/-- **The expression of a value is read** where two more levels are left than lists and
dictionaries nest: one for the value, and one for the sign of the innermost integers. -/
theorem Quotable.read_inside (h : Quotable n v) :
    ∀ m levels, n + 2 ≤ m → Expr.ReadInside (ofDepth m).expression levels v.expr := by
  induction h with
  | null =>
    intro m levels hm
    obtain ⟨m, rfl⟩ := Nat.exists_eq_add_of_le' (Nat.le_of_add_left_le hm)
    exact read_inside_literal rfl rfl fun _ _ => rfl
  | bool b =>
    intro m levels hm
    obtain ⟨m, rfl⟩ := Nat.exists_eq_add_of_le' (Nat.le_of_add_left_le hm)
    cases b <;> exact read_inside_literal rfl rfl fun _ _ => rfl
  | @int _ i hi =>
    intro m levels hm
    obtain ⟨m, rfl⟩ := Nat.exists_eq_add_of_le' (Nat.le_of_add_left_le hm)
    rw [expr]
    split
    · exact read_inside_negative (-i)
    · exact read_inside_literal rfl rfl fun _ _ => rfl
  | str s =>
    intro m levels hm
    obtain ⟨m, rfl⟩ := Nat.exists_eq_add_of_le' (Nat.le_of_add_left_le hm)
    exact read_inside_literal rfl rfl fun _ _ => rfl
  | @list n items _ ih =>
    intro m levels hm
    obtain ⟨m, rfl⟩ := Nat.exists_eq_add_of_le' (Nat.le_of_add_left_le hm)
    have hm : n + 2 ≤ m + 1 := Nat.le_of_succ_le_succ hm
    have hinside : ∀ e ∈ items.map expr, Expr.ReadInside (ofDepth (m + 1)).expression levels e :=
      List.forall_mem_map.mpr fun v hv => ih v hv _ levels hm
    rw [expr, exprItems_eq_map]
    refine read_inside_succ .atom ⟨_, _, rfl, Nat.le_refl _⟩ ?_
    exact fun after _ => (Expr.reads_list hinside).mono (Nat.le_succ levels)
  | @dict n entries _ _ ih =>
    intro m levels hm
    obtain ⟨m, rfl⟩ := Nat.exists_eq_add_of_le' (Nat.le_of_add_left_le hm)
    have hm : n + 2 ≤ m + 1 := Nat.le_of_succ_le_succ hm
    rw [expr, exprEntries_eq_map]
    refine read_inside_succ .atom ⟨_, _, rfl, Nat.le_refl _⟩ ?_
    intro after _
    have hkeys : ∀ entry ∈ entries.map fun entry => (Expr.literal (.str entry.1), entry.2.expr),
        Expr.ReadInside (ofDepth (m + 1)).expression levels entry.1 :=
      List.forall_mem_map.mpr fun _ _ => read_inside_literal rfl rfl fun _ _ => rfl
    have hvalues : ∀ entry ∈ entries.map fun entry => (Expr.literal (.str entry.1), entry.2.expr),
        Expr.ReadInside (ofDepth (m + 1)).expression levels entry.2 :=
      List.forall_mem_map.mpr fun entry hentry => ih entry hentry _ levels hm
    exact (Expr.reads_dict hkeys hvalues).mono (Nat.le_succ levels)

end

/-! ## Their expressions have their values -/

variable (lookup : Text → Option Value)

theorem evalItems_map {items : List Value} (h : ∀ v ∈ items, v.expr.eval lookup = .ok v) :
    Expr.evalItems lookup (items.map expr) = .ok items := by
  induction items with
  | nil => rfl
  | cons v items ih =>
    have hitems := ih fun w hw => h w (List.mem_cons_of_mem _ hw)
    rw [List.map_cons, Expr.evalItems, h v List.mem_cons_self, hitems]
    rfl

/-- Entries in order are put one behind the other. -/
theorem evalEntries_exprEntries (done : Entries Value) {entries : Entries Value}
    (hordered : Entries.Ordered (done ++ entries))
    (h : ∀ entry ∈ entries, entry.2.expr.eval lookup = .ok entry.2) :
    Expr.evalEntries lookup (exprEntries entries) done = .ok (done ++ entries) := by
  induction entries generalizing done with
  | nil => rw [exprEntries, Expr.evalEntries, List.append_nil]
  | cons entry entries ih =>
    obtain ⟨key, v⟩ := entry
    have hv : v.expr.eval lookup = .ok v := h _ List.mem_cons_self
    rw [List.append_cons] at hordered ⊢
    have hput := Entries.put_of_ordered (List.pairwise_append.mp hordered).1
    have hentries := ih _ hordered fun entry hentry => h entry (List.mem_cons_of_mem _ hentry)
    rw [exprEntries, Expr.evalEntries, hv]
    change Expr.evalEntries lookup (exprEntries entries) (Entries.put key v done) = _
    rw [hput, hentries]

/-- **The expression of a value has the value**, whatever the names are bound to. -/
theorem Quotable.eval (h : Quotable n v) : v.expr.eval lookup = .ok v := by
  induction h with
  | null | bool | str => rfl
  | @int _ i hi =>
    rw [expr]
    split
    · next hneg =>
      have hrange : InRange i.toInt := ⟨i.le_toInt, Int.le_of_lt_add_one i.toInt_lt⟩
      change exact (-(-i).toInt) = _
      rw [toInt_neg hi, Int.neg_neg, exact, if_pos hrange, Int64.ofInt_toInt]
    · rfl
  | list _ ih =>
    rw [expr, exprItems_eq_map, Expr.eval, evalItems_map lookup ih]
    rfl
  | dict hordered _ ih =>
    rw [expr, Expr.eval, evalEntries_exprEntries lookup [] hordered ih]
    rfl

/-! ## Whole texts -/

/-- **Values are read back.** The text that a value has inside lists and dictionaries is parsed as
an expression that has just this value in every scope, for all values without floats and without
the least integer whose lists and dictionaries nest at most 98 deep. -/
theorem parse_quoted (h : v.Quotable 98) :
    ∃ e, Expr.parse v.quoted = .ok e ∧ ∀ lookup, e.eval lookup = .ok v := by
  refine ⟨v.expr, ?_, fun lookup => h.eval lookup⟩
  -- more levels than tokens are left, so the parser does not give up for want of them
  have hread := h.read_inside Expr.maxDepth (v.expr.tokens.length + 1) (Nat.le_refl _)
  have hspelled := h.spells [] [] (.nil (by simp)) (by simp [Delimited])
  rw [List.append_nil, List.append_nil] at hspelled
  have hparse := Expr.parse_of_reads (hread.reads [] (Token.ends_nil _)) hspelled h.printable.plain
  refine hparse.resolve_right ?_
  rintro ⟨hlength, -⟩
  exact absurd hlength (Nat.not_succ_le_self _)

/-- Quotes, a newline, signs, commas and empty brackets are all read back. -/
theorem parse_quoted_nested :
    let entries := [("it\x27s\\".toList, list []), ("ü\n".toList, list [null, bool true])]
    let v := list [int (-7), dict entries]
    v.Quotable 98
      ∧ v.quoted = "[-7, \x7b\x27it\\\x27s\\\\\x27: [], \x27ü\\n\x27: [None, True]\x7d]".toList
      ∧ ∃ e, Expr.parse v.quoted = .ok e ∧ ∀ lookup, e.eval lookup = .ok v := by
  intro entries v
  have hdict : Quotable 97 (dict entries) := by
    refine .dict (by decide +kernel) ?_
    rw [List.forall_mem_cons, List.forall_mem_singleton]
    refine ⟨.list (by simp), .list ?_⟩
    rw [List.forall_mem_cons, List.forall_mem_singleton]
    exact ⟨.null, .bool true⟩
  have h : v.Quotable 98 := by
    refine .list ?_
    rw [List.forall_mem_cons, List.forall_mem_singleton]
    exact ⟨.int (by decide), hdict⟩
  exact ⟨h, by decide +kernel, parse_quoted h⟩

end Value

end TemplateEngine
