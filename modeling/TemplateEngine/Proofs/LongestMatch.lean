import TemplateEngine.Proofs.LexemeClasses
import TemplateEngine.Proofs.LexingInPlace

/-!
# Lexemes are the longest of their class

Splitting a text loses nothing and takes the longest match (`Lexeme.tokenize_lossless`): it gives
the lexemes that the text is laid out in, and fails just where none of them can be read. This holds
of one token first. What is read is the longest text of its class (`Token.longest_of_read`) or else
the reason why there is none (`Token.stops_of_read`), and since a text begins in one way only
(`LexemeClass.class_unique`, `ParseFault.Stops.unique`), there is no other answer
(`Token.read_eq_ok`, `Token.read_eq_error`).
-/

namespace TemplateEngine

/-! ## Where reading stops -/

namespace ParseFault

open LexemeClass

variable {fault fault' : ParseFault} {cls : LexemeClass} {text raw : Text} {t : Token}

/-- Where reading stops, the text is not at its end. -/
theorem Stops.exists_cons (h : fault.Stops text) :
    ∃ c others, text = c :: others ∧ Character.isBlank c = false := by
  cases h with
  | unterminatedString hquote =>
    refine ⟨_, _, rfl, ?_⟩
    rcases hquote with rfl | rfl <;> decide
  | integerTooLarge hlongest =>
    obtain ⟨c, rest, rfl, -, hblank⟩ := exists_of_has hlongest.has
    obtain ⟨tail, rfl⟩ := hlongest.stands
    exact ⟨c, rest ++ tail, rfl, hblank⟩
  | unexpectedCharacter hblank => exact ⟨_, _, rfl, hblank⟩

/-- Where reading stops, there is no lexeme. -/
theorem Stops.not_means (h : fault.Stops text) (hlongest : Text.Longest cls.Has raw text)
    (hmeans : cls.Means raw t) : False := by
  cases h with
  | unterminatedString hquote hnone =>
    have hcls := eq_of_has hlongest.has hlongest.stands
    rw [of_isQuote hquote] at hcls
    exact hnone raw hlongest.stands (hcls ▸ hlongest.has)
  | integerTooLarge hnumber hdigits hlarge =>
    obtain ⟨rfl, rfl⟩ := class_unique hnumber hlongest
    cases hmeans with
    | int _ hrange => exact absurd hrange.2 (by omega)
    | float hpoint => cases hdigits.symm.trans hpoint
  | unexpectedCharacter _ _ hnone => exact hnone cls raw hlongest.stands hlongest.has

/-- Reading stops for one reason only. -/
theorem Stops.unique (h : fault.Stops text) (h' : fault'.Stops text) : fault = fault' := by
  have hnumber : ∀ quote rest digits, Character.IsQuote quote →
      ¬Text.Longest number.Has digits (quote :: rest) := by
    intro quote rest digits hquote hlongest
    have hcls := eq_of_has hlongest.has hlongest.stands
    rw [of_isQuote hquote] at hcls
    cases hcls
  cases h with
  | unterminatedString hquote =>
    cases h' with
    | unterminatedString => rfl
    | integerTooLarge hlongest => exact absurd hlongest (hnumber _ _ _ hquote)
    | unexpectedCharacter _ hnot => exact absurd hquote hnot
  | integerTooLarge hlongest =>
    cases h' with
    | unterminatedString hquote => exact absurd hlongest (hnumber _ _ _ hquote)
    | integerTooLarge => rfl
    | unexpectedCharacter _ _ hnone => exact absurd hlongest.has (hnone _ _ hlongest.stands)
  | unexpectedCharacter _ hnot hnone =>
    cases h' with
    | unterminatedString hquote => exact absurd hquote hnot
    | integerTooLarge hlongest => exact absurd hlongest.has (hnone _ _ hlongest.stands)
    | unexpectedCharacter => rfl

end ParseFault

/-! ## One token -/

namespace Token

open LexemeClass

variable {c : Char} {others after text : Text} {t : Token} {fault : ParseFault}

/-- What is read is the longest text of the class that its first character begins, and the token is
what it stands for. -/
theorem longest_of_read (h : read c others = .ok (t, after)) :
    ∃ raw, c :: others = raw ++ after ∧ Text.Longest (of c).Has raw (c :: others)
      ∧ (of c).Means raw t := by
  unfold read at h
  unfold of
  split at h
  · next hdigit =>
    rw [if_pos hdigit]
    exact longest_of_number (by simp [digits, hdigit]) h
  next hdigit =>
  rw [if_neg hdigit]
  split at h
  · next hquote =>
    rw [if_pos hquote]
    split at h
    · next value after' hstring =>
      obtain ⟨rfl, rfl⟩ := Prod.mk.inj (Except.ok.inj h)
      obtain ⟨body, rfl, hquoted⟩ := exists_of_string? hstring
      refine ⟨c :: body, rfl, ⟨⟨c, body, value, hquote, hquoted, rfl⟩, List.prefix_append _ _, ?_⟩,
        .string hquoted⟩
      intro other hother hhas
      obtain ⟨-, value', after'', hstring', heq⟩ := exists_string?_of_has hhas hother
      obtain ⟨rfl, rfl⟩ := Prod.mk.inj (Option.some.inj (hstring.symm.trans hstring'))
      rw [← List.append_cancel_right ((List.cons_append ..).trans heq)]
    · cases h
  next hquote =>
  rw [if_neg hquote]
  split at h
  · next hname =>
    rw [if_pos hname]
    obtain ⟨rfl, rfl⟩ := Prod.mk.inj (Except.ok.inj h)
    have htext : c :: others
        = c :: others.takeWhile continuesName ++ others.dropWhile continuesName := by
      rw [List.cons_append, List.takeWhile_append_dropWhile]
    have hhas : LexemeClass.name.Has (c :: others.takeWhile continuesName) :=
      ⟨c, _, hname, fun d hd => List.mem_takeWhile_imp hd, rfl⟩
    refine ⟨_, htext, ⟨hhas, ⟨_, htext.symm⟩, ?_⟩, .name⟩
    rintro _ hother ⟨d, rest, -, hrest, rfl⟩
    have hle := Text.length_le_takeWhile (List.cons_prefix_cons.mp hother).2 hrest
    simp only [List.length_cons]
    omega
  next hname =>
  rw [if_neg hname]
  split at h
  · next s after' hsymbol =>
    obtain ⟨rfl, rfl⟩ := Prod.mk.inj (Except.ok.inj h)
    exact ⟨_, Symbol.eq_of_read? hsymbol, symbol_longest hsymbol, .symbol rfl⟩
  · cases h

/-- Where nothing is read, the fault says why there is no lexeme. -/
theorem stops_of_read (hblank : Character.isBlank c = false) (h : read c others = .error fault) :
    fault.Stops (c :: others) := by
  unfold read at h
  split at h
  · next hdigit => exact stops_of_number (by simp [digits, hdigit]) h
  next hdigit =>
  split at h
  · next hquote =>
    split at h
    · cases h
    · next hstring =>
      obtain rfl := Except.error.inj h
      refine .unterminatedString hquote fun front hfront hhas => ?_
      obtain ⟨-, value, after, hsome, -⟩ := exists_string?_of_has hhas hfront
      cases hstring.symm.trans hsome
  next hquote =>
  split at h
  · cases h
  next hname =>
  split at h
  · cases h
  · next hsymbol =>
    obtain rfl := Except.error.inj h
    refine .unexpectedCharacter hblank hquote fun cls front hfront hhas => ?_
    have hof : of c = .symbol := by simp [of, hdigit, hquote, hname]
    rw [eq_of_has hhas hfront, hof] at hhas
    exact not_has_of_read? hsymbol hfront hhas

/-- **A token is read** just if the text begins with the longest text of a class, and that stands
for the token. -/
theorem read_eq_ok : read c others = .ok (t, after) ↔ ∃ (cls : LexemeClass) (raw : Text),
    c :: others = raw ++ after ∧ Text.Longest cls.Has raw (c :: others) ∧ cls.Means raw t := by
  constructor
  · intro h
    obtain ⟨raw, htext, hlongest, hmeans⟩ := longest_of_read h
    exact ⟨_, raw, htext, hlongest, hmeans⟩
  · rintro ⟨cls, raw, htext, hlongest, hmeans⟩
    obtain ⟨d, more, rfl, -, hblank⟩ := exists_of_has hlongest.has
    obtain ⟨rfl, -⟩ := List.cons.inj htext
    cases hread : read c others with
    | error fault => exact ((stops_of_read hblank hread).not_means hlongest hmeans).elim
    | ok result =>
      obtain ⟨t', after'⟩ := result
      obtain ⟨raw, htext', hlongest', hmeans'⟩ := longest_of_read hread
      obtain ⟨rfl, rfl⟩ := class_unique hlongest hlongest'
      rw [List.append_cancel_left (htext'.symm.trans htext),
        hmeans'.unique hlongest.has hmeans]

/-- **Nothing is read** just where the fault says so. -/
theorem read_eq_error (hblank : Character.isBlank c = false) :
    read c others = .error fault ↔ fault.Stops (c :: others) := by
  refine ⟨stops_of_read hblank, fun h => ?_⟩
  cases hread : read c others with
  | error fault' => rw [(stops_of_read hblank hread).unique h]
  | ok result =>
    obtain ⟨raw, -, hlongest, hmeans⟩ := longest_of_read hread
    exact (h.not_means hlongest hmeans).elim

end Token

/-! ## Whole texts -/

namespace Lexeme

open LexemeClass

variable {text rest blanks : Text} {lexemes : List Lexeme} {l : Lexeme} {e : ParseError}

/-- Blanks before a text change nothing. -/
theorem tokenize_append (hblanks : ∀ c ∈ blanks, Character.isBlank c = true) (text : Text) :
    tokenize (blanks ++ text) = tokenize text := by
  have hdrop : (blanks ++ text).dropWhile Character.isBlank = text.dropWhile Character.isBlank :=
    List.dropWhile_append_of_pos hblanks
  cases htrim : text.dropWhile Character.isBlank with
  | nil => rw [Buffer.tokenize_of_blank htrim, Buffer.tokenize_of_blank (hdrop.trans htrim)]
  | cons c others =>
    rw [Buffer.tokenize_of_cons htrim, Buffer.tokenize_of_cons (hdrop.trans htrim)]

/-- The lexemes that a text begins with are split off first. -/
theorem tokenize_of_laid (h : Laid text lexemes rest) :
    tokenize text = (tokenize rest).map (lexemes ++ ·) := by
  induction h with
  | nil hblanks =>
    rw [tokenize_append hblanks]
    exact (id_map (tokenize _)).symm
  | @cons blanks rest l lexemes cls hblanks hlongest hmeans _ ih =>
    obtain ⟨c, more, hraw, -, hblank⟩ := exists_of_has hlongest.has
    have hsource : l.source = c :: (more ++ l.rest) := by rw [source, hraw, List.cons_append]
    have hread : Token.read c (more ++ l.rest) = .ok (l.token, l.rest) :=
      Token.read_eq_ok.mpr ⟨cls, l.raw, hsource.symm, hsource ▸ hlongest, hmeans⟩
    have htrim : l.source.dropWhile Character.isBlank = c :: (more ++ l.rest) := by
      rw [hsource, List.dropWhile_cons_of_neg (by simp [hblank])]
    have htake : (c :: (more ++ l.rest)).take ((c :: (more ++ l.rest)).length - l.rest.length)
        = l.raw := by
      rw [← hsource]
      exact Buffer.take_length_sub l.raw l.rest
    rw [tokenize_append hblanks, Buffer.tokenize_of_cons htrim, hread, Except.mapError, ok_bind,
      htake, ih]
    cases tokenize rest with
    | error e => rfl
    | ok later => rfl

theorem tokenize_nil : tokenize [] = .ok [] := Buffer.tokenize_of_blank rfl

theorem tokenize_of_stops {fault : ParseFault} (h : fault.Stops rest) :
    tokenize rest = .error ⟨fault, rest⟩ := by
  obtain ⟨c, others, rfl, hblank⟩ := h.exists_cons
  have htrim : (c :: others).dropWhile Character.isBlank = c :: others :=
    List.dropWhile_cons_of_neg (by simp [hblank])
  rw [Buffer.tokenize_of_cons htrim, (Token.read_eq_error hblank).mpr h]
  rfl

/-- Every text is laid out in lexemes up to its end, or up to a place where reading stops. -/
theorem exists_laid (text : Text) : ∃ lexemes rest, Laid text lexemes rest
    ∧ (rest = [] ∨ ∃ fault : ParseFault, fault.Stops rest) := by
  induction hn : text.length using Nat.strong_induction_on generalizing text with
  | _ n ih =>
    subst hn
    obtain ⟨blanks, hblanks, htext⟩ : ∃ blanks, (∀ c ∈ blanks, Character.isBlank c = true)
        ∧ text = blanks ++ text.dropWhile Character.isBlank :=
      ⟨_, fun c hc => List.mem_takeWhile_imp hc, List.takeWhile_append_dropWhile.symm⟩
    have hhead := List.head?_dropWhile_not Character.isBlank text
    cases htrim : text.dropWhile Character.isBlank with
    | nil =>
      rw [htrim] at htext
      exact ⟨[], [], htext ▸ .nil hblanks, .inl rfl⟩
    | cons c others =>
      rw [htrim] at htext hhead
      have hblank : Character.isBlank c = false := hhead
      cases hread : Token.read c others with
      | error fault =>
        have hstops := Token.stops_of_read hblank hread
        exact ⟨[], c :: others, htext ▸ .nil hblanks, .inr ⟨fault, hstops⟩⟩
      | ok result =>
        obtain ⟨t, after⟩ := result
        obtain ⟨raw, hsource, hlongest, hmeans⟩ := Token.longest_of_read hread
        have hless : after.length < text.length := by
          have hpos := Token.length_lt_of_read hread
          rw [htext, List.length_append]
          omega
        obtain ⟨later, rest, hlater, hend⟩ := ih _ hless after rfl
        rw [hsource] at hlongest htext
        refine ⟨⟨t, raw, after⟩ :: later, rest, ?_, hend⟩
        rw [htext]
        exact .cons (l := ⟨t, raw, after⟩) hblanks hlongest hmeans hlater

theorem tokenize_eq_ok : tokenize text = .ok lexemes ↔ Laid text lexemes [] := by
  constructor
  · intro h
    obtain ⟨found, rest, hlaid, hend⟩ := exists_laid text
    have htokenize := tokenize_of_laid hlaid
    rcases hend with rfl | ⟨fault, hstops⟩
    · rw [tokenize_nil, h] at htokenize
      obtain rfl : lexemes = found ++ [] := Except.ok.inj htokenize
      rwa [List.append_nil]
    · rw [tokenize_of_stops hstops, h] at htokenize
      cases htokenize
  · intro h
    rw [tokenize_of_laid h, tokenize_nil]
    exact congrArg Except.ok (List.append_nil lexemes)

theorem tokenize_eq_error :
    tokenize text = .error e ↔ ∃ lexemes, Laid text lexemes e.rest ∧ e.fault.Stops e.rest := by
  constructor
  · intro h
    obtain ⟨found, rest, hlaid, hend⟩ := exists_laid text
    have htokenize := tokenize_of_laid hlaid
    rcases hend with rfl | ⟨fault, hstops⟩
    · rw [tokenize_nil, h] at htokenize
      cases htokenize
    · rw [tokenize_of_stops hstops, h] at htokenize
      obtain rfl := Except.error.inj htokenize
      exact ⟨found, hlaid, hstops⟩
  · rintro ⟨lexemes, hlaid, hstops⟩
    rw [tokenize_of_laid hlaid, tokenize_of_stops hstops]
    rfl

/-- A lexeme by itself is laid out in itself. -/
theorem Laid.alone (h : Laid text lexemes rest) (hl : l ∈ lexemes) :
    l.raw ≠ [] ∧ Laid l.raw [{ l with rest := [] }] [] := by
  induction h with
  | nil => cases hl
  | @cons blanks rest first lexemes cls _ hlongest hmeans _ ih =>
    rcases List.mem_cons.mp hl with rfl | hl
    · obtain ⟨c, more, hraw, -, -⟩ := exists_of_has hlongest.has
      refine ⟨by simp [hraw], ?_⟩
      have hsource : source { l with rest := [] } = l.raw := List.append_nil l.raw
      have hend : Laid [] [] [] := @Laid.nil [] [] (by simp)
      have hlaid := @Laid.cons [] [] { l with rest := [] } [] cls (by simp)
        (hsource.symm ▸ hlongest.alone) hmeans hend
      rwa [hsource] at hlaid
    · exact ih hl

/-- **Splitting loses nothing and takes the longest match.** The lexemes of a text are those it is
laid out in: blanks and lexemes make up the whole text, in order, and each lexeme is the longest of
its class at its place. None is empty, each begins at its offset, and a lexeme by itself is split
into this lexeme. Splitting fails just where, behind such lexemes, the text goes on with an
unterminated string, an integer out of range or nothing that begins a lexeme; and then the error is
this. Splitting in place, where the offsets are counted along the way, comes to the same. -/
theorem tokenize_lossless (text : Text) :
    (∀ lexemes, tokenize text = .ok lexemes ↔ Laid text lexemes [])
      ∧ (∀ lexemes, tokenize text = .ok lexemes → ∀ l ∈ lexemes, l.raw ≠ []
        ∧ (∃ before, text = before ++ l.source ∧ l.offset text = before.byteSize)
        ∧ tokenize l.raw = .ok [{ l with rest := [] }])
      ∧ (∀ e, tokenize text = .error e ↔ ∃ lexemes, Laid text lexemes e.rest
        ∧ e.fault.Stops e.rest)
      ∧ Buffer.tokenize text
        = .ok ((tokenize text).map (·.map fun l => ⟨l.token, l.raw, l.offset text⟩)) := by
  refine ⟨fun _ => tokenize_eq_ok, fun lexemes h l hl => ?_, fun _ => tokenize_eq_error,
    Buffer.tokenize_eq text⟩
  obtain ⟨hne, halone⟩ := (tokenize_eq_ok.mp h).alone hl
  obtain ⟨before, hbefore⟩ := Buffer.source_suffix_of_mem h hl
  refine ⟨hne, ⟨before, hbefore.symm, ?_⟩, tokenize_eq_ok.mpr halone⟩
  rw [offset, ← hbefore, Text.byteSize_append, Nat.add_sub_cancel]

/-- A point without digits behind it is no part of a number, and a quote with a backslash before it
closes no string. -/
theorem tokenize_lossless_escapes : ∃ lexemes, tokenize "7.x //'\\''".toList = .ok lexemes
    ∧ lexemes.map (·.raw) = [['7'], ['.'], ['x'], ['/', '/'], ['\x27', '\\', '\x27', '\x27']]
    ∧ ∀ l ∈ lexemes, tokenize l.raw = .ok [{ l with rest := [] }] := by
  have hraw : (tokenize "7.x //'\\''".toList).toOption.map (·.map (·.raw))
      = some [['7'], ['.'], ['x'], ['/', '/'], ['\x27', '\\', '\x27', '\x27']] := by
    decide +kernel
  cases htokenize : tokenize "7.x //'\\''".toList with
  | error e =>
    rw [htokenize] at hraw
    cases hraw
  | ok lexemes =>
    rw [htokenize] at hraw
    exact ⟨lexemes, rfl, Option.some.inj hraw,
      fun l hl => ((tokenize_lossless _).2.1 lexemes htokenize l hl).2.2⟩

end Lexeme

end TemplateEngine
