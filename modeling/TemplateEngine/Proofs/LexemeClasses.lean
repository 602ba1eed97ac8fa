import TemplateEngine.Expression.LexemeClass
import TemplateEngine.Proofs.Lexing

/-!
# What begins a lexeme, and where it ends

Each part of the reader against the class of lexemes it reads. The first character of a lexeme
decides the class (`LexemeClass.eq_of_has`). A number is read up to its last digit
(`LexemeClass.number_longest`): no part of it begins with a character that the part before may hold
(`Text.Longest.append`), so that the longest parts make up the longest number. A string is read up
to the quote that closes it (`LexemeClass.exists_of_string?`, `LexemeClass.string?_append`), and of
the symbols the longest one is read (`LexemeClass.symbol_longest`).
-/

namespace TemplateEngine

/-- What stands at the start of a text and is made of a class of characters is part of the longest
run of them. -/
theorem Text.length_le_takeWhile {p : Char → Bool} {other text : Text} (hother : other <+: text)
    (hp : ∀ c ∈ other, p c = true) : other.length ≤ (text.takeWhile p).length := by
  obtain ⟨tail, rfl⟩ := hother
  rw [List.takeWhile_append_of_pos hp, List.length_append]
  exact Nat.le_add_right _ _

namespace Decimal

theorem isNumeral_iff {text : Text} :
    isNumeral text = true ↔ text ≠ [] ∧ ∀ c ∈ text, c.isDigit = true := by
  simp [isNumeral]

theorem exists_of_isNumeral {text : Text} (h : isNumeral text = true) :
    ∃ c rest, text = c :: rest ∧ c.isDigit = true := by
  obtain ⟨hne, hdigits⟩ := isNumeral_iff.mp h
  obtain ⟨c, rest, rfl⟩ := List.exists_cons_of_ne_nil hne
  exact ⟨c, rest, rfl, hdigits c List.mem_cons_self⟩

theorem sign_of_isDigit {c : Char} (hc : c.isDigit = true) (rest : Text) :
    sign (c :: rest) = (false, c :: rest) := by
  unfold sign
  split
  · next heq =>
    obtain ⟨rfl, -⟩ := List.cons.inj heq
    cases hc
  · next heq =>
    obtain ⟨rfl, -⟩ := List.cons.inj heq
    cases hc
  · rfl

end Decimal

/-! ## The first character decides -/

namespace LexemeClass

variable {cls cls' : LexemeClass} {c : Char} {rest raw text : Text}

theorem of_isQuote (hc : Character.IsQuote c) : of c = string := by
  rcases hc with rfl | rfl <;> rfl

/-- The first character of a text of a class. -/
theorem exists_of_has (h : cls.Has raw) :
    ∃ c rest, raw = c :: rest ∧ of c = cls ∧ Character.isBlank c = false := by
  cases cls with
  | number =>
    obtain ⟨_, exponent, ⟨whole, fraction, hwhole, -, rfl⟩, -, rfl⟩ := h
    obtain ⟨c, rest, rfl, hc⟩ := Decimal.exists_of_isNumeral hwhole
    exact ⟨c, _, rfl, if_pos hc, Character.isBlank_of_isDigit hc⟩
  | string =>
    obtain ⟨quote, body, _, hquote, -, rfl⟩ := h
    refine ⟨quote, body, rfl, of_isQuote hquote, ?_⟩
    rcases hquote with rfl | rfl <;> decide
  | name =>
    obtain ⟨c, rest, hc, -, rfl⟩ := h
    refine ⟨c, rest, rfl, ?_, Character.isBlank_of_beginsName hc⟩
    simp [of, Character.not_isDigit_of_beginsName hc, Character.not_quote_of_beginsName hc, hc]
  | symbol =>
    obtain ⟨s, rfl⟩ := h
    obtain ⟨c, rest, hs, hdigit, hquote, hbegins, hblank⟩ := Token.exists_spelling_symbol s
    exact ⟨c, rest, hs, by simp [of, hdigit, hquote, hbegins], hblank⟩

/-- The first character decides the class. -/
theorem eq_of_has (h : cls.Has raw) (hraw : raw <+: c :: rest) : cls = of c := by
  obtain ⟨d, more, rfl, rfl, -⟩ := exists_of_has h
  rw [(List.cons_prefix_cons.mp hraw).1]

theorem class_unique {a b : Text} (ha : Text.Longest cls.Has a text)
    (hb : Text.Longest cls'.Has b text) : cls = cls' ∧ a = b := by
  obtain ⟨c, more, rfl, rfl, -⟩ := exists_of_has ha.has
  obtain ⟨rest, rfl⟩ := ha.stands
  obtain rfl := eq_of_has hb.has hb.stands
  exact ⟨rfl, ha.unique hb⟩

/-! ## Numbers -/

/-- Digits that stand at the start of a text are among those split off there. -/
theorem length_le_digits {digits : Text} (hdigits : Decimal.isNumeral digits = true)
    (hstands : digits <+: text) : digits.length ≤ (Token.digits text).1.length :=
  Text.length_le_takeWhile hstands (Decimal.isNumeral_iff.mp hdigits).2

theorem digits_longest (h : (Token.digits text).1 ≠ []) :
    Text.Longest (Decimal.isNumeral ·) (Token.digits text).1 text where
  has := Decimal.isNumeral_iff.mpr ⟨h, fun _ hc => List.mem_takeWhile_imp hc⟩
  stands := List.takeWhile_prefix _
  length_le _ hother hdigits := length_le_digits hdigits hother

theorem fraction_longest (text : Text) : Text.Longest Fraction (Token.fraction text).1 text := by
  -- a fraction at the start of the text is seen by its first digit
  have hlength : ∀ other, other <+: text → Fraction other →
      other.length ≤ (Token.fraction text).1.length := by
    intro other hother hfraction
    cases hfraction with
    | without => exact Nat.zero_le _
    | @point digits hdigits =>
      obtain ⟨tail, rfl⟩ := hother
      obtain ⟨d, more, rfl, hd⟩ := Decimal.exists_of_isNumeral hdigits
      have hle := length_le_digits hdigits (List.prefix_append (d :: more) tail)
      simp only [List.cons_append, Token.fraction, hd, if_true, List.length_cons] at hle ⊢
      omega
  refine ⟨?_, ⟨_, Token.fraction_append text⟩, hlength⟩
  unfold Token.fraction
  split
  · next d rest =>
    split
    · next hd =>
      exact .point (digits_longest (by simp [Token.digits, hd])).has
    · exact .without
  · exact .without

theorem sign_of_prefix {sign digits : Text} (hsign : sign = [] ∨ sign = ['+'] ∨ sign = ['-'])
    (hdigits : Decimal.isNumeral digits = true) (hstands : sign ++ digits <+: text) :
    (Token.sign text).1 = sign ∧ digits <+: (Token.sign text).2 := by
  obtain ⟨tail, rfl⟩ := hstands
  rcases hsign with rfl | rfl | rfl
  · obtain ⟨d, more, rfl, hd⟩ := Decimal.exists_of_isNumeral hdigits
    have hnot : ¬(d = '+' ∨ d = '-') := by
      rintro (rfl | rfl) <;> revert hd <;> decide
    simp [Token.sign, hnot]
  · simp [Token.sign]
  · simp [Token.sign]

theorem sign_cases (text : Text) : (Token.sign text).1 = [] ∨ (Token.sign text).1 = ['+']
    ∨ (Token.sign text).1 = ['-'] := by
  unfold Token.sign
  split
  · next s _ =>
    split
    · next hs => rcases hs with rfl | rfl <;> simp
    · exact .inl rfl
  · exact .inl rfl

theorem exponent_longest (text : Text) : Text.Longest Exponent (Token.exponent text).1 text := by
  have hlength : ∀ other, other <+: text → Exponent other →
      other.length ≤ (Token.exponent text).1.length := by
    intro other hother hexponent
    cases hexponent with
    | without => exact Nat.zero_le _
    | @power mark sign digits hmark hsign hdigits =>
      obtain ⟨tail, rfl⟩ := hother
      have hstands : sign ++ digits <+: sign ++ digits ++ tail := List.prefix_append _ _
      obtain ⟨hsame, hpower⟩ := sign_of_prefix hsign hdigits hstands
      have hle := length_le_digits hdigits hpower
      have hne : (Token.digits (Token.sign (sign ++ digits ++ tail)).2).1 ≠ [] := by
        obtain ⟨d, more, rfl, -⟩ := Decimal.exists_of_isNumeral hdigits
        exact List.ne_nil_of_length_pos (Nat.lt_of_lt_of_le (Nat.succ_pos _) hle)
      rw [List.cons_append, Token.exponent, if_pos ⟨hmark, hne⟩, hsame]
      simp only [List.length_cons, List.length_append]
      omega
  refine ⟨?_, ⟨_, Token.exponent_append text⟩, hlength⟩
  unfold Token.exponent
  split
  · next e rest =>
    dsimp only
    split
    · next h => exact .power h.1 (sign_cases rest) (digits_longest h.2).has
    · exact .without
  · exact .without

theorem not_mem_whole {whole : Text} (hwhole : Decimal.isNumeral whole = true) {c : Char}
    {later : Text} (h : Fraction (c :: later)) : c ∉ whole := by
  cases h with
  | point => exact fun hc => absurd ((Decimal.isNumeral_iff.mp hwhole).2 _ hc) (by decide)

theorem not_mem_mantissa {mantissa : Text}
    (hmantissa : Text.Joins (Decimal.isNumeral ·) Fraction mantissa) {c : Char} {later : Text}
    (h : Exponent (c :: later)) : c ∉ mantissa := by
  obtain ⟨whole, fraction, hwhole, hfraction, rfl⟩ := hmantissa
  have hchars : ∀ d ∈ whole ++ fraction, d.isDigit = true ∨ d = '.' := by
    intro d hd
    rcases List.mem_append.mp hd with hd | hd
    · exact .inl ((Decimal.isNumeral_iff.mp hwhole).2 d hd)
    · cases hfraction with
      | without => cases hd
      | point hdigits =>
        rcases List.mem_cons.mp hd with rfl | hd
        · exact .inr rfl
        · exact .inl ((Decimal.isNumeral_iff.mp hdigits).2 d hd)
  cases h with
  | power hmark =>
    intro hc
    rcases hmark with rfl | rfl <;> exact absurd (hchars _ hc) (by decide)

/-- A number is as long as its three parts. -/
theorem number_longest (hwhole : (Token.digits text).1 ≠ []) :
    Text.Longest number.Has ((Token.digits text).1 ++ (Token.fraction (Token.digits text).2).1
      ++ (Token.exponent (Token.fraction (Token.digits text).2).2).1) text := by
  have hmantissa : Text.Longest (Text.Joins (Decimal.isNumeral ·) Fraction)
      ((Token.digits text).1 ++ (Token.fraction (Token.digits text).2).1) text :=
    (digits_longest hwhole).append (fraction_longest _) (Token.digits_append text).symm
      fun _ _ => not_mem_whole (digits_longest hwhole).has
  refine hmantissa.append (exponent_longest _) ?_ fun _ _ => not_mem_mantissa hmantissa.has
  rw [List.append_assoc, Token.fraction_append, Token.digits_append]

/-- What may follow digits begins with none. -/
theorem head_exponent {exponent : Text} (h : Exponent exponent) :
    ∀ c ∈ exponent.head?, c.isDigit = false ∧ c ≠ '.' := by
  intro c hc
  cases h with
  | without => cases hc
  | power hmark =>
    obtain rfl := Option.some.inj hc
    rcases hmark with rfl | rfl <;> decide

theorem exists_exponent? {exponent : Text} (h : Exponent exponent) :
    ∃ e, Decimal.exponent? exponent = some e := by
  cases h with
  | without => exact ⟨0, rfl⟩
  | @power mark sign digits hmark hsign hdigits =>
    rw [Decimal.exponent?, if_pos hmark]
    have hpower : (Decimal.sign (sign ++ digits)).2 = digits := by
      rcases hsign with rfl | rfl | rfl
      · obtain ⟨d, more, rfl, hd⟩ := Decimal.exists_of_isNumeral hdigits
        exact congrArg Prod.snd (Decimal.sign_of_isDigit hd more)
      · rfl
      · rfl
    exact ⟨_, if_pos (hpower.symm ▸ hdigits)⟩

/-- Every number stands for a float. -/
theorem exists_unsigned? (h : number.Has raw) : ∃ x, Decimal.unsigned? raw = some x := by
  obtain ⟨_, exponent, ⟨whole, fraction, hwhole, hfraction, rfl⟩, hexponent, rfl⟩ := h
  obtain ⟨e, he⟩ := exists_exponent? hexponent
  have hne : whole ≠ [] := (Decimal.isNumeral_iff.mp hwhole).1
  have hhead : ∀ c ∈ (fraction ++ exponent).head?, c.isDigit = false := by
    cases hfraction with
    | without => exact fun c hc => (head_exponent hexponent c hc).1
    | point =>
      intro c hc
      obtain rfl := Option.some.inj hc
      decide
  obtain ⟨htake, hdrop⟩ := Text.span_append (Decimal.isNumeral_iff.mp hwhole).2 hhead
  rw [List.append_assoc, Decimal.unsigned?, htake, hdrop]
  cases hfraction with
  | without =>
    cases hexponent with
    | without => exact ⟨_, if_neg (by simp [hne])⟩
    | power hmark => rcases hmark with rfl | rfl <;> simp [hne, he]
  | point hdigits =>
    obtain ⟨htake', hdrop'⟩ := Text.span_append (Decimal.isNumeral_iff.mp hdigits).2
      fun c hc => (head_exponent hexponent c hc).1
    simp [htake', hdrop', hne, he]

/-- A number with a fraction or an exponent is not made of digits alone. -/
theorem not_isNumeral {whole fraction exponent : Text} (hfraction : Fraction fraction)
    (hexponent : Exponent exponent) (h : ¬(fraction.isEmpty && exponent.isEmpty) = true) :
    Decimal.isNumeral (whole ++ fraction ++ exponent) = false := by
  rw [Bool.eq_false_iff]
  intro hnumeral
  have hdigits := (Decimal.isNumeral_iff.mp hnumeral).2
  cases hfraction with
  | point => exact absurd (hdigits '.' (by simp)) (by decide)
  | without =>
    cases hexponent with
    | without => exact h rfl
    | @power mark _ _ hmark =>
      have hmem := hdigits mark (by simp)
      rcases hmark with rfl | rfl <;> exact absurd hmem (by decide)

/-- What is read of a number is the longest one, and the token is its value. -/
theorem longest_of_number {t : Token} {after : Text} (hwhole : (Token.digits text).1 ≠ [])
    (h : Token.number text = .ok (t, after)) :
    ∃ raw, text = raw ++ after ∧ Text.Longest number.Has raw text ∧ Means number raw t := by
  have hlongest := number_longest hwhole
  have htext : text = (Token.digits text).1 ++ (Token.fraction (Token.digits text).2).1
      ++ (Token.exponent (Token.fraction (Token.digits text).2).2).1
      ++ (Token.exponent (Token.fraction (Token.digits text).2).2).2 := by
    simp
  unfold Token.number at h
  dsimp only at h
  split at h
  · next hempty =>
    rw [Bool.and_eq_true, List.isEmpty_iff, List.isEmpty_iff] at hempty
    simp only [hempty.1, hempty.2, List.append_nil] at hlongest htext
    split at h
    · next hrange =>
      obtain ⟨rfl, rfl⟩ := Prod.mk.inj (Except.ok.inj h)
      exact ⟨_, htext, hlongest, .int (digits_longest hwhole).has hrange⟩
    · cases h
  · next hfloat =>
    obtain ⟨rfl, rfl⟩ := Prod.mk.inj (Except.ok.inj h)
    obtain ⟨x, hx⟩ := exists_unsigned? hlongest.has
    refine ⟨_, htext, hlongest, ?_⟩
    rw [hx]
    exact .float (not_isNumeral (fraction_longest _).has (exponent_longest _).has hfloat) hx

/-- A number that is not read is an integer out of range. -/
theorem stops_of_number {fault : ParseFault} (hwhole : (Token.digits text).1 ≠ [])
    (h : Token.number text = .error fault) : fault.Stops text := by
  have hlongest := number_longest hwhole
  unfold Token.number at h
  dsimp only at h
  split at h
  · next hempty =>
    rw [Bool.and_eq_true, List.isEmpty_iff, List.isEmpty_iff] at hempty
    simp only [hempty.1, hempty.2, List.append_nil] at hlongest
    split at h
    · cases h
    · next hrange =>
      obtain rfl := Except.error.inj h
      refine .integerTooLarge hlongest (digits_longest hwhole).has ?_
      rw [Value.InRange] at hrange
      omega
  · cases h

/-! ## Strings -/

/-- What is read of a string is its body, up to the quote that closes it. -/
theorem exists_of_string? {quote : Char} {value after : Text}
    (h : Token.string? quote text = some (value, after)) :
    ∃ body, text = body ++ after ∧ Quoted quote body value := by
  fun_induction Token.string? quote text generalizing value with
  | case1 => cases h
  | case2 => cases h
  | case3 c tail ih =>
    obtain ⟨⟨value', after'⟩, hbody, heq⟩ := Option.map_eq_some_iff.mp h
    obtain ⟨rfl, rfl⟩ := Prod.mk.inj heq
    obtain ⟨body, rfl, hquoted⟩ := ih hbody
    exact ⟨'\\' :: c :: body, rfl, .escaped hquoted⟩
  | case4 tail =>
    obtain ⟨rfl, rfl⟩ := Prod.mk.inj (Option.some.inj h)
    exact ⟨[quote], rfl, .close⟩
  | case5 c tail hlast hescape hquote ih =>
    obtain ⟨⟨value', after'⟩, hbody, heq⟩ := Option.map_eq_some_iff.mp h
    obtain ⟨rfl, rfl⟩ := Prod.mk.inj heq
    obtain ⟨body, rfl, hquoted⟩ := ih hbody
    refine ⟨c :: body, rfl, .plain hquote ?_ hquoted⟩
    rintro rfl
    cases hbody' : body ++ after' with
    | nil => exact hlast rfl hbody'
    | cons d more => exact hescape d more rfl hbody'

theorem string?_append {quote : Char} {body value : Text} (hquote : quote ≠ '\\')
    (h : Quoted quote body value) (after : Text) :
    Token.string? quote (body ++ after) = some (value, after) := by
  induction h with
  | close => simp [Token.string?, hquote]
  | escaped _ ih => simp [Token.string?, ih]
  | plain hplain hslash _ ih => simp [Token.string?, hplain, hslash, ih]

theorem ne_slash_of_isQuote (hc : Character.IsQuote c) : c ≠ '\\' := by
  rcases hc with rfl | rfl <;> decide

/-- A string at the start of a text is the one that is read there. -/
theorem exists_string?_of_has (h : string.Has raw) (hraw : raw <+: c :: rest) :
    Character.IsQuote c ∧ ∃ value after, Token.string? c rest = some (value, after)
      ∧ c :: rest = raw ++ after := by
  obtain ⟨quote, body, value, hquote, hquoted, rfl⟩ := h
  obtain ⟨tail, heq⟩ := hraw
  obtain ⟨rfl, rfl⟩ := List.cons.inj heq
  exact ⟨hquote, value, tail, string?_append (ne_slash_of_isQuote hquote) hquoted tail, rfl⟩

/-! ## Symbols -/

theorem mem_all (s : Symbol) : s ∈ Symbol.all := by
  cases s <;> decide

/-- No symbol in the list of all is longer than one before it. -/
theorem all_pairwise :
    Symbol.all.Pairwise fun s later => later.spelling.length ≤ s.spelling.length := by
  decide

/-- The symbol that is read is the longest at the start of the text. -/
theorem symbol_longest {s : Symbol} {after : Text} (h : Symbol.read? text = some (s, after)) :
    Text.Longest symbol.Has s.spelling text := by
  refine ⟨⟨s, rfl⟩, ⟨after, (Symbol.eq_of_read? h).symm⟩, ?_⟩
  rintro _ ⟨tail, htail⟩ ⟨other, rfl⟩
  obtain ⟨front, found, back, hall, hfound, hfront⟩ := List.findSome?_eq_some_iff.mp h
  obtain ⟨_, _, heq⟩ := Option.map_eq_some_iff.mp hfound
  obtain ⟨rfl, -⟩ := Prod.mk.inj heq
  have hafter : text.after? other.spelling = some tail := Text.after?_eq_some.mpr htail.symm
  have hpairwise := List.pairwise_append.mp (hall ▸ all_pairwise)
  rcases List.mem_append.mp (hall ▸ mem_all other) with hmem | hmem
  · -- it would have been read
    have hnone := hfront other hmem
    rw [hafter] at hnone
    cases hnone
  · rcases List.mem_cons.mp hmem with rfl | hmem
    · exact Nat.le_refl _
    · exact List.rel_of_pairwise_cons hpairwise.2.1 hmem

theorem spelling_injective {s s' : Symbol} (h : s.spelling = s'.spelling) : s = s' := by
  have hread (s : Symbol) : Symbol.read? s.spelling = some (s, []) := by cases s <;> rfl
  exact congrArg Prod.fst (Option.some.inj ((hread s).symm.trans (h ▸ hread s')))

theorem not_has_of_read? (h : Symbol.read? text = none) (hraw : raw <+: text) :
    ¬symbol.Has raw := by
  rintro ⟨s, rfl⟩
  obtain ⟨tail, htail⟩ := hraw
  have hnone := List.findSome?_eq_none_iff.mp h s (mem_all s)
  rw [Text.after?_eq_some.mpr htail.symm] at hnone
  cases hnone

/-! ## Tokens -/

theorem Quoted.unique {quote : Char} {body a b : Text} (ha : Quoted quote body a)
    (hb : Quoted quote body b) (hquote : quote ≠ '\\') : a = b :=
  congrArg Prod.fst (Option.some.inj
    ((string?_append hquote ha []).symm.trans (string?_append hquote hb [])))

/-- A text of a class stands for one token only. -/
theorem Means.unique {t t' : Token} (hraw : cls.Has raw) (h : cls.Means raw t)
    (h' : cls.Means raw t') : t = t' := by
  cases h with
  | int hdigits =>
    cases h' with
    | int => rfl
    | float hpoint => cases hdigits.symm.trans hpoint
  | float hpoint hx =>
    cases h' with
    | int hdigits => cases hdigits.symm.trans hpoint
    | float _ hx' => rw [Option.some.inj (hx.symm.trans hx')]
  | string hquoted =>
    cases h' with
    | string hquoted' =>
      obtain ⟨quote, body, value, hquote, -, heq⟩ := hraw
      obtain ⟨rfl, rfl⟩ := List.cons.inj heq
      rw [hquoted.unique hquoted' (ne_slash_of_isQuote hquote)]
  | name => cases h'; rfl
  | symbol hs =>
    cases h' with
    | symbol hs' => rw [spelling_injective (hs.symm.trans hs')]

end LexemeClass

end TemplateEngine
