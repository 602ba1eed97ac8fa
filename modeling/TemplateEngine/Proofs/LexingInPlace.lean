import TemplateEngine.Buffer.Lexing
import TemplateEngine.Proofs.Buffers
import TemplateEngine.Proofs.Results

/-!
# Splitting in place is faithful

Splitting the text inside a tag where it stands gives the lexemes that splitting gives, each with
the byte where it begins (`Buffer.tokenize_eq`). So every place that a parse error names lies in the
text, and can be quoted (`Buffer.scan_eq_ok`).
-/

namespace TemplateEngine

/-! ## Whole characters -/

namespace Text

theorem takeBytes_prefix (text : Text) (limit : Nat) : text.takeBytes limit <+: text := by
  induction text generalizing limit with
  | nil => exact List.prefix_rfl
  | cons c text ih =>
    rw [takeBytes]
    split
    · exact List.prefix_cons_inj c |>.mpr (ih _)
    · exact List.nil_prefix

theorem takeBytes_append (before rest : Text) :
    takeBytes (before ++ rest) before.byteSize = before := by
  induction before with
  | nil =>
    cases rest with
    | nil => rfl
    | cons c rest => exact if_neg (Nat.not_le_of_lt c.utf8Size_pos)
  | cons c before ih =>
    rw [List.cons_append, takeBytes, byteSize, if_pos (Nat.le_add_right _ _),
      Nat.add_sub_cancel_left, ih]

theorem takeBytes_of_byteSize_le {text : Text} {limit : Nat} (h : text.byteSize ≤ limit) :
    text.takeBytes limit = text := by
  induction text generalizing limit with
  | nil => rfl
  | cons c text ih =>
    rw [byteSize] at h
    rw [takeBytes, if_pos (by omega), ih (by omega)]

/-- Where no character ends, no more characters fit than one byte before. -/
theorem takeBytes_succ {text : Text} {limit : Nat} (h : text.splitAtByte? (limit + 1) = none) :
    text.takeBytes (limit + 1) = text.takeBytes limit := by
  induction text generalizing limit with
  | nil => rfl
  | cons c text ih =>
    have hpos := c.utf8Size_pos
    rw [splitAtByte?] at h
    rw [takeBytes, takeBytes]
    split at h
    · next hle =>
      have hsplit := Option.map_eq_none_iff.mp h
      rcases Nat.lt_or_ge limit c.utf8Size with hlast | hmore
      · -- the character would end just there
        rw [Nat.le_antisymm hle hlast, Nat.sub_self] at hsplit
        cases text <;> cases hsplit
      · rw [if_pos hle, if_pos hmore]
        rw [Nat.sub_add_comm hmore] at hsplit ⊢
        rw [ih hsplit]
    · next hlt => rw [if_neg hlt, if_neg (by omega)]

end Text

namespace Buffer

variable {buffer passed rest : Text} {offset : Nat}

/-! ## Ends of lexemes -/

theorem peek_append (hbuffer : buffer = passed ++ rest) (hoffset : offset = passed.byteSize) :
    peek buffer offset = .ok rest.head? := by
  rw [peek, behind_append hbuffer hoffset]
  rfl

theorem slice_front {raw : Text} (hbuffer : buffer = raw ++ rest) :
    slice buffer 0 raw.byteSize = .ok raw :=
  @slice_append buffer [] raw rest 0 raw.byteSize hbuffer rfl (Nat.zero_add _).symm

theorem classEnd_front (p : Char → Bool) (buffer : Text) :
    classEnd p buffer 0 = .ok (Text.byteSize (buffer.takeWhile p)) := by
  have hbehind : behind buffer 0 = .ok buffer := behind_append (List.nil_append buffer).symm rfl
  rw [classEnd, hbehind]
  exact congrArg Except.ok (Nat.zero_add _)

theorem digitsEnd?_append (hbuffer : buffer = passed ++ rest)
    (hoffset : offset = passed.byteSize) :
    digitsEnd? buffer offset = .ok (if (Token.digits rest).1.isEmpty then none
      else some (passed.byteSize + (Token.digits rest).1.byteSize)) := by
  rw [digitsEnd?, behind_append hbuffer hoffset, hoffset]
  rfl

/-- Where one more character of one byte has been passed. -/
theorem append_cons {c : Char} (hbuffer : buffer = passed ++ c :: rest)
    (hoffset : offset = passed.byteSize) (hc : c.utf8Size = 1) :
    buffer = (passed ++ [c]) ++ rest ∧ offset + 1 = Text.byteSize (passed ++ [c]) := by
  refine ⟨by rw [hbuffer, List.append_assoc, List.singleton_append], ?_⟩
  rw [Text.byteSize_append, hoffset, Text.byteSize, hc]
  rfl

theorem fraction_point (rest : Text) : (Token.fraction ('.' :: rest)).1
    = if (Token.digits rest).1.isEmpty then [] else '.' :: (Token.digits rest).1 := by
  cases rest with
  | nil => rfl
  | cons d rest =>
    by_cases hd : d.isDigit <;> simp [Token.fraction, Token.digits, hd]

theorem fractionEnd_append (hbuffer : buffer = passed ++ rest)
    (hoffset : offset = passed.byteSize) :
    fractionEnd buffer offset = .ok (Text.byteSize (passed ++ (Token.fraction rest).1)) := by
  rw [fractionEnd, peek_append hbuffer hoffset]
  change (if rest.head? = some '.' then _ else _) = _
  split
  · next hhead =>
    obtain ⟨more, rfl⟩ := List.head?_eq_some_iff.mp hhead
    obtain ⟨hnext, hoffset'⟩ := append_cons hbuffer hoffset rfl
    rw [digitsEnd?_append hnext hoffset', fraction_point, hoffset]
    split
    · rw [List.append_nil]
      rfl
    · rw [← Text.byteSize_append, List.append_assoc]
      rfl
  · next hhead =>
    have hnone : (Token.fraction rest).1 = [] := by
      cases rest with
      | nil => rfl
      | cons c rest =>
        have hc : c ≠ '.' := by simpa using hhead
        cases rest <;> simp [Token.fraction, hc]
    rw [hnone, List.append_nil, hoffset]
    rfl

theorem signEnd_append (hbuffer : buffer = passed ++ rest) (hoffset : offset = passed.byteSize) :
    signEnd buffer offset = .ok (Text.byteSize (passed ++ (Token.sign rest).1)) := by
  rw [signEnd, peek_append hbuffer hoffset]
  change Except.ok (if rest.head? = some '+' ∨ rest.head? = some '-' then _ else _) = _
  cases rest with
  | nil => rw [hoffset, Token.sign, List.append_nil]; rfl
  | cons c rest =>
    by_cases hc : c = '+' ∨ c = '-'
    · have hsize : c.utf8Size = 1 := by rcases hc with rfl | rfl <;> rfl
      rw [if_pos (by simpa using hc), Token.sign, if_pos hc, (append_cons hbuffer hoffset hsize).2]
    · rw [if_neg (by simpa using hc), Token.sign, if_neg hc, List.append_nil, hoffset]

theorem exponent_mark {e : Char} (he : e = 'e' ∨ e = 'E') (rest : Text) :
    (Token.exponent (e :: rest)).1
      = if (Token.digits (Token.sign rest).2).1.isEmpty then []
        else e :: (Token.sign rest).1 ++ (Token.digits (Token.sign rest).2).1 := by
  rw [Token.exponent]
  by_cases hnil : (Token.digits (Token.sign rest).2).1 = []
  · rw [if_pos (List.isEmpty_iff.mpr hnil)]
    exact congrArg Prod.fst (if_neg fun h => h.2 hnil)
  · rw [if_neg fun h => hnil (List.isEmpty_iff.mp h)]
    exact congrArg Prod.fst (if_pos ⟨he, hnil⟩)

theorem exponentEnd_append (hbuffer : buffer = passed ++ rest)
    (hoffset : offset = passed.byteSize) :
    exponentEnd buffer offset = .ok (Text.byteSize (passed ++ (Token.exponent rest).1)) := by
  rw [exponentEnd, peek_append hbuffer hoffset]
  change (if rest.head? = some 'e' ∨ rest.head? = some 'E' then _ else _) = _
  cases rest with
  | nil => rw [hoffset, Token.exponent, List.append_nil]; rfl
  | cons e rest =>
    by_cases he : e = 'e' ∨ e = 'E'
    · have hsize : e.utf8Size = 1 := by rcases he with rfl | rfl <;> rfl
      obtain ⟨hnext, hoffset'⟩ := append_cons hbuffer hoffset hsize
      have hpower : buffer = (passed ++ [e] ++ (Token.sign rest).1) ++ (Token.sign rest).2 := by
        rw [hnext, List.append_assoc (passed ++ [e]), Token.sign_append]
      rw [if_pos (by simpa using he), signEnd_append hnext hoffset', exponent_mark he, hoffset]
      change (digitsEnd? buffer _ >>= _) = _
      rw [digitsEnd?_append hpower rfl]
      split
      · rw [List.append_nil]
        rfl
      · rw [← Text.byteSize_append]
        simp only [List.append_assoc]
        rfl
    · have hnone : (Token.exponent (e :: rest)).1 = [] := by
        rw [Token.exponent]
        exact congrArg Prod.fst (if_neg fun h => he h.1)
      rw [if_neg (by simpa using he), hnone, List.append_nil, hoffset]
      rfl

/-! ## Lexemes -/

/-- What was read of a buffer, with the byte where it ends in place of what follows it. -/
def ended (buffer : Text) (read : Token × Text) : Token × Nat :=
  (read.1, buffer.byteSize - read.2.byteSize)

theorem ended_append {raw : Text} (t : Token) (hbuffer : buffer = raw ++ rest) :
    ended buffer (t, rest) = (t, raw.byteSize) := by
  rw [ended, hbuffer, Text.byteSize_append, Nat.add_sub_cancel]

theorem number_eq (buffer : Text) :
    number buffer = .ok ((Token.number buffer).map (ended buffer)) := by
  cases hd : Token.digits buffer with | mk whole rest₁ =>
  cases hf : Token.fraction rest₁ with | mk frac rest₂ =>
  cases he : Token.exponent rest₂ with | mk exp rest₃ =>
  have hwhole : buffer = whole ++ rest₁ := by
    rw [← Token.digits_append buffer, hd]
  have hfrac : rest₁ = frac ++ rest₂ := by
    rw [← Token.fraction_append rest₁, hf]
  have hexp : rest₂ = exp ++ rest₃ := by
    rw [← Token.exponent_append rest₂, he]
  have hwholeEnd : classEnd Char.isDigit buffer 0 = .ok whole.byteSize := by
    rw [classEnd_front]
    exact congrArg (fun d => Except.ok (Text.byteSize d.1)) hd
  have hfracEnd : fractionEnd buffer whole.byteSize = .ok (Text.byteSize (whole ++ frac)) := by
    rw [fractionEnd_append hwhole rfl, hf]
  have hexpEnd : exponentEnd buffer (Text.byteSize (whole ++ frac))
      = .ok (Text.byteSize (whole ++ frac ++ exp)) := by
    rw [exponentEnd_append (by rw [hwhole, hfrac, List.append_assoc]) rfl, he]
  have hbuffer : buffer = (whole ++ frac ++ exp) ++ rest₃ := by
    rw [hwhole, hfrac, hexp]
    simp only [List.append_assoc]
  have hraw : slice buffer 0 (Text.byteSize (whole ++ frac ++ exp)) = .ok (whole ++ frac ++ exp) :=
    slice_front hbuffer
  have hnumber : Token.number buffer = if frac.isEmpty && exp.isEmpty then
        (if Value.InRange (Decimal.value whole)
          then .ok (.int (Int64.ofNat (Decimal.value whole)), rest₃) else .error .integerTooLarge)
      else .ok (.float ((Decimal.unsigned? (whole ++ frac ++ exp)).getD 0.0), rest₃) := by
    simp only [Token.number, hd, hf, he]
  have hended := fun t => ended_append t hbuffer
  have hwholeStop : whole.byteSize = Text.byteSize (whole ++ frac ++ exp)
      ↔ (frac.isEmpty && exp.isEmpty) = true := by
    rw [Text.byteSize_append, Text.byteSize_append, Bool.and_eq_true, List.isEmpty_iff,
      List.isEmpty_iff, ← Text.byteSize_eq_zero, ← Text.byteSize_eq_zero]
    omega
  simp only [number, hwholeEnd, hfracEnd, hexpEnd, hraw, ok_bind, hwholeStop, hnumber]
  split
  · next hempty =>
    rw [Bool.and_eq_true, List.isEmpty_iff, List.isEmpty_iff] at hempty
    obtain ⟨rfl, rfl⟩ := hempty
    simp only [List.append_nil] at hended ⊢
    split
    · exact congrArg (fun r => Except.ok (Except.ok r)) (hended _).symm
    · rfl
  · exact congrArg (fun r => Except.ok (Except.ok r)) (hended _).symm

theorem continuesName_of_beginsName {c : Char} (h : Token.beginsName c = true) :
    Token.continuesName c = true := by
  rw [Token.beginsName, Bool.or_eq_true] at h
  rw [Token.continuesName, Bool.or_eq_true]
  exact h.imp_left Character.isAlphanumeric_of_isLetter

/-- A token is read in place as it is read. -/
theorem token_eq (c : Char) (others : Text) :
    token (c :: others) c others = .ok ((Token.read c others).map (ended (c :: others))) := by
  rw [token, Token.read]
  split
  · exact number_eq (c :: others)
  split
  · cases Token.string? c others with
    | none => rfl
    | some read => rfl
  split
  · next hname =>
    have htake : (c :: others).takeWhile Token.continuesName
        = c :: others.takeWhile Token.continuesName :=
      List.takeWhile_cons_of_pos (continuesName_of_beginsName hname)
    have hbuffer : c :: others = (c :: others.takeWhile Token.continuesName)
        ++ others.dropWhile Token.continuesName := by
      rw [List.cons_append, List.takeWhile_append_dropWhile]
    rw [classEnd_front, htake, ok_bind, slice_front hbuffer, ok_bind]
    exact congrArg (fun r => Except.ok (Except.ok r)) (ended_append _ hbuffer).symm
  · cases hsymbol : Symbol.read? (c :: others) with
    | none => rfl
    | some read =>
      exact congrArg (fun r => Except.ok (Except.ok r))
        (ended_append _ (Symbol.eq_of_read? hsymbol)).symm

/-- A lexeme, with the byte where it begins in the text. -/
def Lexed.of (buffer : Text) (l : Lexeme) : Lexed := ⟨l.token, l.raw, l.offset buffer⟩

theorem take_length_sub (raw after : Text) :
    (raw ++ after).take ((raw ++ after).length - after.length) = raw := by
  rw [List.length_append, Nat.add_sub_cancel, List.take_left]

theorem tokenize_of_blank {text : Text} (h : text.dropWhile Character.isBlank = []) :
    Lexeme.tokenize text = .ok [] := by
  rw [Lexeme.tokenize]
  split
  · rfl
  · next hcons => cases h.symm.trans hcons

/-- What comes of the first lexeme, and then of the others. -/
theorem tokenize_of_cons {text others : Text} {c : Char}
    (h : text.dropWhile Character.isBlank = c :: others) :
    Lexeme.tokenize text
      = (Token.read c others).mapError (⟨·, c :: others⟩) >>= fun read =>
        (Lexeme.tokenize read.2).map
          (⟨read.1, (c :: others).take ((c :: others).length - read.2.length), read.2⟩ :: ·) := by
  rw [Lexeme.tokenize]
  split
  · next hnil => cases hnil.symm.trans h
  · next d tail hcons =>
    obtain ⟨rfl, rfl⟩ := List.cons.inj (hcons.symm.trans h)
    split
    · next hread => rw [hread]; rfl
    · next hread =>
      dsimp only
      rw [hread, Except.mapError, ok_bind]
      split <;> next hrest => rw [hrest]; rfl

theorem tokenizeFrom_append (hbuffer : buffer = passed ++ rest) :
    tokenizeFrom buffer passed.byteSize
      = .ok ((Lexeme.tokenize rest).map (·.map (Lexed.of buffer))) := by
  induction hn : rest.length using Nat.strong_induction_on generalizing passed rest with
  | _ n ih =>
    subst hn
    rw [tokenizeFrom, behind_append hbuffer rfl, ok_bind]
    cases htrim : rest.dropWhile Character.isBlank with
    | nil =>
      rw [tokenize_of_blank htrim]
      rfl
    | cons c others =>
      dsimp only
      rw [token_eq, ok_bind, tokenize_of_cons htrim]
      cases hread : Token.read c others with
      | error fault => rfl
      | ok read =>
        obtain ⟨t, after⟩ := read
        obtain ⟨more, rfl⟩ := Token.suffix_of_read hread
        have htrimmed : c :: (more ++ after) = (c :: more) ++ after := rfl
        obtain ⟨blanks, hrest⟩ : ∃ blanks, rest = blanks ++ (c :: (more ++ after)) :=
          ⟨_, by rw [← htrim, List.takeWhile_append_dropWhile]⟩
        have hstart : passed.byteSize + (rest.byteSize - Text.byteSize (c :: (more ++ after)))
            = Text.byteSize (passed ++ blanks) := by
          rw [hrest, Text.byteSize_append, Text.byteSize_append, Nat.add_sub_cancel]
        have hbehind : buffer = (passed ++ blanks ++ (c :: more)) ++ after := by
          rw [hbuffer, hrest, htrimmed]
          simp only [List.append_assoc]
        have hless : buffer.byteSize - Text.byteSize (passed ++ blanks ++ (c :: more))
            < buffer.byteSize - passed.byteSize := by
          have hpos := Text.byteSize_pos (List.cons_ne_nil c more)
          rw [hbehind]
          simp only [Text.byteSize_append]
          omega
        have hof : Lexed.of buffer
            ⟨t, (c :: (more ++ after)).take ((c :: (more ++ after)).length - after.length), after⟩
              = ⟨t, c :: more, Text.byteSize (passed ++ blanks)⟩ := by
          have hoffset : Lexeme.offset buffer ⟨t, c :: more, after⟩
              = Text.byteSize (passed ++ blanks) := by
            rw [Lexeme.offset, Lexeme.source, hbehind, List.append_assoc, Text.byteSize_append,
              Nat.add_sub_cancel]
          rw [htrimmed, take_length_sub, Lexed.of, hoffset]
        have hlength : after.length < rest.length := by
          rw [hrest]
          simp only [List.length_append, List.length_cons]
          omega
        rw [Except.map, ended_append t htrimmed, hstart]
        dsimp only
        rw [slice_front htrimmed, ok_bind, ← Text.byteSize_append, if_pos hless,
          ih _ hlength hbehind rfl, ok_bind, Except.mapError, ok_bind]
        cases Lexeme.tokenize after with
        | error e => rfl
        | ok lexemes => exact congrArg (fun l => Except.ok (Except.ok (l :: _))) hof.symm

/-- **Lexemes are found in place**: those of the text, each where it begins. -/
theorem tokenize_eq (buffer : Text) :
    tokenize buffer = .ok ((Lexeme.tokenize buffer).map (·.map (Lexed.of buffer))) :=
  tokenizeFrom_append (List.nil_append buffer).symm

/-! ## Quotations -/

theorem cutBack_eq (buffer : Text) (limit : Nat) :
    cutBack buffer limit = (buffer.takeBytes limit).byteSize := by
  induction limit with
  | zero =>
    cases buffer with
    | nil => rfl
    | cons c buffer =>
      rw [Text.takeBytes, if_neg (Nat.not_le_of_lt c.utf8Size_pos)]
      rfl
  | succ limit ih =>
    rw [cutBack]
    cases hsplit : buffer.splitAtByte? (limit + 1) with
    | none => exact ih.trans (congrArg Text.byteSize (Text.takeBytes_succ hsplit).symm)
    | some pieces =>
      obtain ⟨before, rest⟩ := pieces
      obtain ⟨rfl, hsize⟩ := Text.splitAtByte?_eq_some.mp hsplit
      rw [hsize, Text.takeBytes_append]
      rfl

/-- A quotation is made of whole characters, as many as fit. -/
theorem quote_eq (buffer : Text) :
    quote buffer = .ok (buffer.takeBytes ParseError.quotedBytes) := by
  rw [quote]
  split
  · obtain ⟨rest, hrest⟩ := Text.takeBytes_prefix buffer ParseError.quotedBytes
    rw [cutBack_eq]
    exact slice_front hrest.symm
  · next hle => rw [Text.takeBytes_of_byteSize_le (Nat.not_lt.mp hle)]; rfl

theorem source_suffix_of_mem {text : Text} {lexemes : List Lexeme} {l : Lexeme}
    (h : Lexeme.tokenize text = .ok lexemes) (hl : l ∈ lexemes) : l.source <:+ text := by
  induction hn : text.length using Nat.strong_induction_on generalizing text lexemes with
  | _ n ih =>
    subst hn
    cases htrim : text.dropWhile Character.isBlank with
    | nil =>
      obtain rfl := Except.ok.inj ((tokenize_of_blank htrim).symm.trans h)
      cases hl
    | cons c others =>
      have htext : c :: others <:+ text := htrim ▸ List.dropWhile_suffix _
      rw [tokenize_of_cons htrim] at h
      obtain ⟨⟨t, after⟩, hread, h⟩ := exists_of_bind_eq_ok h
      obtain ⟨later, hlater, rfl⟩ := exists_of_map_eq_ok h
      obtain ⟨more, rfl⟩ := Token.suffix_of_read (eq_ok_of_mapError_eq_ok hread)
      rcases List.mem_cons.mp hl with rfl | hl
      · rw [Lexeme.source, ← List.cons_append, take_length_sub]
        exact htext
      · have hafter : after <:+ text := (List.suffix_append (c :: more) after).trans htext
        have hlength : after.length < text.length := by
          have hle := htext.length_le
          simp only [List.length_cons, List.length_append] at hle
          omega
        exact (ih _ hlength hlater hl rfl).trans hafter

/-- **Every place that a parse error can name** lies in the text and can be quoted. -/
theorem scan_eq_ok (buffer : Text) : scan buffer = .ok () := by
  rw [scan, tokenize_eq, ok_bind]
  cases h : Lexeme.tokenize buffer with
  | error e =>
    change discard (quote e.rest) = _
    rw [quote_eq]
    rfl
  | ok lexemes =>
    refine forM_eq_ok fun lexed hlexed => ?_
    obtain ⟨l, hl, rfl⟩ := List.mem_map.mp hlexed
    obtain ⟨before, hbuffer⟩ := source_suffix_of_mem h hl
    have hoffset : l.offset buffer = Text.byteSize before := by
      rw [Lexeme.offset, ← hbuffer, Text.byteSize_append, Nat.add_sub_cancel]
    rw [Lexed.of, behind_append hbuffer.symm hoffset, ok_bind, quote_eq]
    rfl

end Buffer

end TemplateEngine
