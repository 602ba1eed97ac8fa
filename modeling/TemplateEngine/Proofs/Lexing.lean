import Mathlib.Data.List.TakeWhile
import TemplateEngine.Expression.Parser
import TemplateEngine.Expression.Printer

/-!
# Tokens are read back

A text that is spelled from tokens is split into just these tokens, wherever blanks stand
(`Lexeme.exists_tokenize`). For one token this says that what is read first in its spelling is
the token, and no more is taken than its spelling (`Token.read_spelling`): the longest piece of
its class ends where the spelling ends, since what follows does not run together with it.
-/

namespace TemplateEngine

/-! ## Characters -/

namespace Character

/-- What is blank begins neither a name nor a number. -/
theorem not_begins_of_isBlank {c : Char} (h : isBlank c = true) :
    Token.beginsName c = false ∧ c.isDigit = false := by
  have hmem := of_decide_eq_true h
  rw [← Char.ofNat_toNat c]
  generalize c.toNat = k at hmem
  revert k
  decide +kernel

theorem isBlank_of_beginsName {c : Char} (h : Token.beginsName c = true) : isBlank c = false := by
  cases hblank : isBlank c with
  | false => rfl
  | true => cases h.symm.trans (not_begins_of_isBlank hblank).1

theorem isBlank_of_isDigit {c : Char} (h : c.isDigit = true) : isBlank c = false := by
  cases hblank : isBlank c with
  | false => rfl
  | true => cases h.symm.trans (not_begins_of_isBlank hblank).2

/-- A digit begins no name. -/
theorem not_beginsName_of_isDigit {c : Char} (h : c.isDigit = true) :
    Token.beginsName c = false := by
  have hmem : c.toNat ∈ List.range' 48 10 := by
    obtain ⟨hge, hle⟩ := Char.isDigit_iff_toNat.mp h
    have hzero : '0'.toNat = 48 := rfl
    have hnine : '9'.toNat = 57 := rfl
    exact List.mem_range'.mpr ⟨c.toNat - 48, by omega, by omega⟩
  rw [← Char.ofNat_toNat c]
  generalize c.toNat = k at hmem
  revert k
  decide +kernel

theorem not_isDigit_of_beginsName {c : Char} (h : Token.beginsName c = true) :
    c.isDigit = false := by
  cases hd : c.isDigit with
  | false => rfl
  | true => cases h.symm.trans (not_beginsName_of_isDigit hd)

/-- A quote begins no name. -/
theorem not_quote_of_beginsName {c : Char} (h : Token.beginsName c = true) :
    ¬(c = '"' ∨ c = '\x27') := by
  rintro (rfl | rfl) <;> revert h <;> decide +kernel

end Character

/-! ## Classes of lexemes -/

/-- A text of a class is split off where the class ends. -/
theorem Text.span_append {p : Char → Bool} {front text : Text} (hfront : ∀ c ∈ front, p c = true)
    (htext : ∀ c ∈ text.head?, p c = false) :
    (front ++ text).takeWhile p = front ∧ (front ++ text).dropWhile p = text := by
  rw [List.takeWhile_append_of_pos hfront, List.dropWhile_append_of_pos hfront]
  cases text with
  | nil => simp
  | cons c text =>
    have hc : p c = false := htext c rfl
    simp [hc]

/-- The longest symbol is the one that does not run together with what follows. -/
theorem Symbol.read?_append {s : Symbol} {text : Text} (h : (Token.symbol s).apart text = true) :
    Symbol.read? (s.spelling ++ text) = some (s, text) := by
  rcases text with _ | ⟨c, text⟩
  · cases s <;> rfl
  -- only these two are the second character of a symbol
  by_cases heq : c = '='
  · subst heq
    cases s <;> first | rfl | cases h
  by_cases hslash : c = '/'
  · subst hslash
    cases s <;> first | rfl | cases h
  cases s <;> simp [Symbol.read?, Symbol.all, Text.after?, Symbol.spelling, heq, hslash]

namespace Token

variable {text : Text}

/-- A quoted text is read up to its end. -/
theorem string?_quoted (s text : Text) :
    string? '\x27' (s.flatMap Text.quotedChar ++ '\x27' :: text) = some (s, text) := by
  induction s with
  | nil => rfl
  | cons c s ih =>
    rw [List.flatMap_cons, List.append_assoc]
    by_cases hquote : c = '\x27'
    · subst hquote
      simp [Text.quotedChar, string?, ih, unescape]
    by_cases hslash : c = '\\'
    · subst hslash
      simp [Text.quotedChar, string?, ih, unescape]
    by_cases hline : c = '\n'
    · subst hline
      simp [Text.quotedChar, string?, ih, unescape]
    simp [Text.quotedChar, string?, ih, hquote, hslash]

/-- An integer is read up to its last digit. -/
theorem number_append {n : Nat} (hn : Value.InRange n) (h : (int (.ofNat n)).apart text = true) :
    number (Nat.toDigits 10 n ++ text) = .ok (.int (.ofNat n), text) := by
  obtain ⟨hdigits, hfraction, hexponent⟩ :
      (digits text).1 = [] ∧ (fraction text).1 = [] ∧ (exponent text).1 = [] := by
    simpa [apart, and_assoc] using h
  have hwhole : digits (Nat.toDigits 10 n ++ text) = (Nat.toDigits 10 n, text) := by
    have hnumeral : ∀ c ∈ Nat.toDigits 10 n, c.isDigit = true :=
      fun c hc => Nat.isDigit_of_mem_toDigits (by decide) (by decide) hc
    have htext : ∀ c ∈ text.head?, c.isDigit = false := by
      intro c hc
      obtain ⟨rest, rfl⟩ := List.head?_eq_some_iff.mp hc
      cases hd : c.isDigit with
      | false => rfl
      | true => simp [digits, hd] at hdigits
    obtain ⟨htake, hdrop⟩ := Text.span_append hnumeral htext
    rw [digits, htake, hdrop]
  have hpoint : fraction text = ([], text) :=
    Prod.ext hfraction (by simpa [hfraction] using fraction_append text)
  have hpower : exponent text = ([], text) :=
    Prod.ext hexponent (by simpa [hexponent] using exponent_append text)
  simp [number, hwhole, hpoint, hpower, hn]

/-- A name or keyword is read up to its end. -/
theorem read_name {c : Char} {rest : Text} (hc : beginsName c = true)
    (hrest : ∀ d ∈ rest, continuesName d = true)
    (htext : ∀ d ∈ text.head?, continuesName d = false) :
    read c (rest ++ text) = .ok (ofName (c :: rest), text) := by
  obtain ⟨htake, hdrop⟩ := Text.span_append hrest htext
  simp [read, Character.not_isDigit_of_beginsName hc, Character.not_quote_of_beginsName hc, hc,
    htake, hdrop]

/-! ## One token -/

/-- The tokens that are read back: there is no float, no integer has a sign and no name is a
keyword. -/
def Plain : Token → Prop
  | int i => 0 ≤ i.toInt
  | float _ => False
  | name n => n.Identifier
  | str _ | keyword _ | symbol _ => True

@[simp] theorem plain_str (s : Text) : (str s).Plain := trivial

@[simp] theorem plain_keyword (k : Keyword) : (keyword k).Plain := trivial

@[simp] theorem plain_symbol (s : Symbol) : (symbol s).Plain := trivial

/-- All spellings of keywords are those of names. -/
theorem exists_spelling_keyword (k : Keyword) : ∃ c rest, k.spelling = c :: rest
    ∧ beginsName c = true ∧ (∀ d ∈ rest, continuesName d = true)
    ∧ ofName (c :: rest) = .keyword k := by
  cases k <;> exact ⟨_, _, rfl, by decide +kernel, List.all_eq_true.mp (by decide +kernel), rfl⟩

theorem exists_spelling_symbol (s : Symbol) : ∃ c rest, s.spelling = c :: rest
    ∧ c.isDigit = false ∧ ¬(c = '"' ∨ c = '\x27') ∧ beginsName c = false
    ∧ Character.isBlank c = false := by
  cases s <;> exact ⟨_, _, rfl, by decide, by decide, by decide +kernel, by decide⟩

/-- **A token is read back** from its spelling, and nothing of what follows is taken. -/
theorem read_spelling {t : Token} (ht : t.Plain) (h : t.apart text = true) :
    ∃ c rest, t.spelling ++ text = c :: rest ∧ Character.isBlank c = false
      ∧ read c rest = .ok (t, text) := by
  cases t with
  | int i =>
    obtain ⟨n, hn⟩ := Int.eq_ofNat_of_zero_le ht
    have hi : i = .ofNat n := by rw [← Int64.ofInt_toInt i, hn, Int64.ofInt_eq_ofNat]
    have hrange : Value.InRange n := by
      have hlt := i.toInt_lt
      rw [hn] at hlt
      exact ⟨by omega, by omega⟩
    have hspelling : (int i).spelling = Nat.toDigits 10 n := by
      change Decimal.ofInt i.toInt = _
      rw [hn]
      rfl
    obtain ⟨c, rest, hdigits, hc⟩ := Decimal.exists_toDigits_eq_cons n
    refine ⟨c, rest ++ text, by rw [hspelling, hdigits]; rfl, Character.isBlank_of_isDigit hc, ?_⟩
    have hnumber := number_append hrange (hi ▸ h)
    rw [hdigits, List.cons_append] at hnumber
    rw [read, if_pos hc, hnumber, ← hi]
  | float x => exact ht.elim
  | str s =>
    refine ⟨'\x27', s.flatMap Text.quotedChar ++ '\x27' :: text, by simp [spelling, Text.quoted],
      by decide, ?_⟩
    simp [read, string?_quoted]
  | name n =>
    obtain ⟨⟨c, rest, rfl, hc⟩, hcontinues, hkeyword⟩ := (ht : n.Identifier)
    have hrest : ∀ d ∈ rest, continuesName d = true :=
      fun d hd => hcontinues d (List.mem_cons_of_mem _ hd)
    have htext : ∀ d ∈ text.head?, continuesName d = false := by
      simpa [apart, Option.all_eq_true] using h
    refine ⟨c, rest ++ text, rfl, Character.isBlank_of_beginsName hc, ?_⟩
    rw [read_name hc hrest htext, ofName, hkeyword]
  | keyword k =>
    obtain ⟨c, rest, hk, hc, hrest, hname⟩ := exists_spelling_keyword k
    have htext : ∀ d ∈ text.head?, continuesName d = false := by
      simpa [apart, Option.all_eq_true] using h
    refine ⟨c, rest ++ text, by simp [spelling, hk], Character.isBlank_of_beginsName hc, ?_⟩
    rw [read_name hc hrest htext, hname]
  | symbol s =>
    obtain ⟨c, rest, hs, hdigit, hquote, hbegins, hblank⟩ := exists_spelling_symbol s
    have hread := Symbol.read?_append h
    rw [hs, List.cons_append] at hread
    refine ⟨c, rest ++ text, by simp [spelling, hs], hblank, ?_⟩
    simp [read, hdigit, hquote, hbegins, hread]

end Token

/-! ## Whole texts -/

/-- **Tokens are read back** from each text that is spelled from them. -/
theorem Lexeme.exists_tokenize {tokens : List Token} {text : Text}
    (h : Token.Spelled tokens text) (hplain : ∀ t ∈ tokens, t.Plain) :
    ∃ lexemes, Lexeme.tokenize text = .ok lexemes ∧ lexemes.map (·.token) = tokens := by
  induction h with
  | @nil blanks hblanks =>
    have hdrop : blanks.dropWhile Character.isBlank = [] := List.dropWhile_eq_nil_iff.mpr hblanks
    refine ⟨[], ?_, rfl⟩
    unfold tokenize
    split
    · rfl
    · next c tail heq => cases hdrop.symm.trans heq
  | @cons blanks t tokens text hblanks hapart _ ih =>
    obtain ⟨lexemes, hlexemes, rfl⟩ := ih fun t ht => hplain t (List.mem_cons_of_mem _ ht)
    obtain ⟨c, rest, hspelling, hblank, hread⟩ :=
      Token.read_spelling (hplain t List.mem_cons_self) hapart
    have hdrop : (blanks ++ t.spelling ++ text).dropWhile Character.isBlank = c :: rest := by
      rw [List.append_assoc, hspelling, List.dropWhile_append_of_pos hblanks]
      simp [hblank]
    unfold tokenize
    split
    · next heq => cases hdrop.symm.trans heq
    · next c' tail heq =>
      obtain ⟨rfl, rfl⟩ := List.cons.inj (hdrop.symm.trans heq)
      split
      · next fault hfault => cases hread.symm.trans hfault
      · next t' rest' hok =>
        cases hread.symm.trans hok
        simp only [hlexemes]
        exact ⟨_, rfl, rfl⟩

end TemplateEngine
