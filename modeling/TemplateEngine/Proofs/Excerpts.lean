import Mathlib.Data.List.DropRight
import TemplateEngine.Proofs.Buffers

/-!
# What an excerpt shows

An excerpt is made from the two sides of a piece, and each side is split into lines by itself. Here
it is compared with the lines of the whole text (`Span.underline_faithful`). The lines of a text are
known by what they join to (`Text.lines_eq_iff`), so that the lines of both sides and the line of
the piece between them are those of the text (`Span.lies_of_not_mem`), and what an excerpt shows of
them is said without a second look at the sides (`Span.shownLines`).
-/

namespace TemplateEngine

/-! ## Lines -/

namespace Text

variable {text front : Text} {lines : List Text}

/-! ### Cutting at a character -/

theorem cut?_of_not_mem {c : Char} (h : c ∉ text) : text.cut? [c] = none := by
  induction text with
  | nil => rfl
  | cons d text ih =>
    obtain ⟨hd, htext⟩ := not_or.mp (List.mem_cons.not.mp h)
    simp [cut?, after?, Ne.symm hd, ih htext]

theorem cut?_append_cons {c : Char} (h : c ∉ front) (rest : Text) :
    (front ++ c :: rest).cut? [c] = some (front, rest) := by
  induction front with
  | nil => simp [cut?, after?]
  | cons d front ih =>
    obtain ⟨hd, hfront⟩ := not_or.mp (List.mem_cons.not.mp h)
    simp [cut?, after?, Ne.symm hd, ih hfront]

/-! ### Splitting and joining -/

theorem lines_of_not_mem (h : '\n' ∉ text) : text.lines = [text] := by
  rw [Text.lines, pieces, dif_neg (by simp)]
  split
  · rfl
  · next hcut => cases (cut?_of_not_mem h).symm.trans hcut

theorem lines_append_cons (h : '\n' ∉ front) (rest : Text) :
    (front ++ '\n' :: rest).lines = front :: rest.lines := by
  rw [Text.lines, pieces, dif_neg (by simp)]
  split
  · next hcut => cases (cut?_append_cons h rest).symm.trans hcut
  · next hcut =>
    cases (cut?_append_cons h rest).symm.trans hcut
    rfl

/-- Lines are read off a text just as they were joined. -/
theorem lines_intercalate (hne : lines ≠ []) (hlines : ∀ line ∈ lines, '\n' ∉ line) :
    Text.lines (['\n'].intercalate lines) = lines := by
  induction lines with
  | nil => exact absurd rfl hne
  | cons line lines ih =>
    obtain ⟨hline, hlines⟩ := List.forall_mem_cons.mp hlines
    cases lines with
    | nil => rw [List.intercalate_singleton, lines_of_not_mem hline]
    | cons next lines =>
      rw [List.intercalate_cons_cons, List.append_assoc, List.singleton_append,
        lines_append_cons hline, ih (List.cons_ne_nil _ _) hlines]

theorem exists_intercalate (text : Text) : ∃ lines, lines ≠ []
    ∧ (∀ line ∈ lines, '\n' ∉ line) ∧ ['\n'].intercalate lines = text := by
  induction hn : text.length using Nat.strong_induction_on generalizing text with
  | _ n ih =>
    subst hn
    by_cases hmem : '\n' ∈ text
    · obtain ⟨front, rest, rfl, hfront⟩ := List.eq_append_cons_of_mem hmem
      obtain ⟨lines, hne, hlines, rfl⟩ := ih rest.length (by simp; omega) rest rfl
      refine ⟨front :: lines, List.cons_ne_nil _ _, List.forall_mem_cons.mpr ⟨hfront, hlines⟩, ?_⟩
      obtain ⟨line, lines, rfl⟩ := List.exists_cons_of_ne_nil hne
      rw [List.intercalate_cons_cons, List.append_assoc, List.singleton_append]
    · exact ⟨[text], List.cons_ne_nil _ _, by simpa using hmem, List.intercalate_singleton⟩

/-- The lines of a text hold no newline and make up the text when they are joined by newlines, and
no other ones do. -/
theorem lines_eq_iff : text.lines = lines ↔ lines ≠ [] ∧ (∀ line ∈ lines, '\n' ∉ line)
    ∧ ['\n'].intercalate lines = text := by
  constructor
  · rintro rfl
    obtain ⟨lines, hne, hlines, rfl⟩ := exists_intercalate text
    rw [lines_intercalate hne hlines]
    exact ⟨hne, hlines, rfl⟩
  · rintro ⟨hne, hlines, rfl⟩
    exact lines_intercalate hne hlines

/-- Lines in the middle of others. -/
theorem intercalate_append_cons (above : List Text) (line : Text) (below : List Text) :
    ['\n'].intercalate (above ++ line :: below)
      = above.flatMap (· ++ ['\n']) ++ line ++ below.flatMap ('\n' :: ·) := by
  induction above with
  | nil =>
    rw [List.nil_append, List.flatMap_nil, List.nil_append]
    induction below generalizing line with
    | nil => simp
    | cons next below ih => simp [List.intercalate_cons_cons, ih]
  | cons first above ih =>
    obtain ⟨second, others, hothers⟩ :=
      List.exists_cons_of_ne_nil (l := above ++ line :: below) (by simp)
    rw [List.cons_append, hothers, List.intercalate_cons_cons, ← hothers, ih]
    simp

end Text

/-! ## Excerpts -/

namespace Span

/-- Where a piece lies in its text: the lines above and below, and what stands before and behind it
on its own line. -/
structure Lies (s : Span) (above : List Text) (lead trail : Text) (below : List Text) : Prop where
  before : s.before = above.flatMap (· ++ ['\n']) ++ lead
  after : s.after = trail ++ below.flatMap ('\n' :: ·)
  /-- these are the lines of the text -/
  lines : s.source.lines = above ++ (lead ++ s.content ++ trail) :: below

/-- The line that says how many lines are left out. -/
def omission (n : Nat) : Text :=
  '[' :: Nat.toDigits 10 n ++ (if n = 1 then " line" else " lines").toList ++ " skipped]".toList

/-- The lines of an excerpt: those above and below as far as they are shown, and between them the
line of the piece with marks under it. -/
def shownLines (around : Nat) (mark : Char) (s : Span) (above : List Text) (lead trail : Text)
    (below : List Text) : List Text :=
  (if around < above.length then [omission (above.length - around)] else [])
    ++ above.rtake around
    ++ [lead ++ s.content ++ trail,
      lead.map (fun c => if c = '\t' then '\t' else ' ') ++ .replicate s.content.length mark]
    ++ below.take around
    ++ (if around < below.length then [omission (below.length - around)] else [])

variable {s : Span} {around : Nat} {above below : List Text} {lead trail : Text}

/-- Every piece lies somewhere, if no newline breaks it. -/
theorem lies_of_not_mem (h : '\n' ∉ s.content) : s.Lies s.above s.lead s.trail s.below := by
  obtain ⟨hne, hbefore, hjoin⟩ := Text.lines_eq_iff.mp (Eq.refl s.before.lines)
  obtain ⟨hne', hafter, hjoin'⟩ := Text.lines_eq_iff.mp (Eq.refl s.after.lines)
  have habove : s.before.lines = s.above ++ [s.lead] := by
    rw [Span.above, lead, List.getLastD_eq_getLast?, List.getLast?_eq_some_getLast hne]
    exact (List.dropLast_append_getLast hne).symm
  have hbelow : s.after.lines = s.trail :: s.below := by
    obtain ⟨line, lines, hlines⟩ := List.exists_cons_of_ne_nil hne'
    rw [trail, below, hlines]
    rfl
  rw [habove, Text.intercalate_append_cons, List.flatMap_nil, List.append_nil] at hjoin
  rw [hbelow, ← List.nil_append (s.trail :: _), Text.intercalate_append_cons, List.flatMap_nil,
    List.nil_append] at hjoin'
  rw [habove] at hbefore
  rw [hbelow] at hafter
  refine ⟨hjoin.symm, hjoin'.symm, Text.lines_eq_iff.mpr ⟨by simp, ?_, ?_⟩⟩
  · simp only [List.mem_append, List.mem_cons] at hbefore hafter ⊢
    rintro line (hline | rfl | hline)
    · exact hbefore line (.inl hline)
    · simp [hbefore s.lead (by simp), hafter s.trail (by simp), h]
    · exact hafter line (.inr hline)
  · rw [Text.intercalate_append_cons, source, ← hjoin, ← hjoin']
    simp only [List.append_assoc]

/-- Nothing is said of no lines. -/
theorem skipped_eq (around n : Nat) :
    skipped (n - around) = if around < n then [omission (n - around)] else [] := by
  by_cases h : around < n
  · have hdigits : (toString (n - around)).toList = Nat.toDigits 10 (n - around) := by
      simp [toString, Nat.repr]
    rw [if_pos h, skipped, if_neg (by omega), hdigits, omission]
  · rw [if_neg h, skipped, if_pos (by omega)]

theorem newline_not_mem_omission (n : Nat) : '\n' ∉ omission n := by
  have hwords : '\n' ∉ (if n = 1 then " line" else " lines").toList ++ " skipped]".toList := by
    split <;> decide
  rw [omission, List.append_assoc, List.mem_append, List.mem_cons]
  rintro ((hopen | hdigit) | hword)
  · cases hopen
  · cases Nat.isDigit_of_mem_toDigits (by decide) (by decide) hdigit
  · exact hwords hword

/-- No line of an excerpt is broken, unless the mark breaks it. -/
theorem Lies.newline_not_mem {mark : Char} (h : s.Lies above lead trail below)
    (hmark : mark ≠ '\n') {line : Text}
    (hline : line ∈ s.shownLines around mark above lead trail below) : '\n' ∉ line := by
  have hlines : ∀ line ∈ above ++ (lead ++ s.content ++ trail) :: below, '\n' ∉ line :=
    (Text.lines_eq_iff.mp h.lines).2.1
  simp only [List.mem_append, List.mem_cons] at hlines
  have homission : ∀ {around n : Nat},
      line ∈ (if around < n then [omission (n - around)] else []) → '\n' ∉ line := by
    intro around n hmem
    split at hmem
    · rw [List.mem_singleton.mp hmem]
      exact newline_not_mem_omission _
    · cases hmem
  simp only [shownLines, List.mem_append, List.mem_cons, List.not_mem_nil, or_false] at hline
  rcases hline with (((hline | hline) | rfl | rfl) | hline) | hline
  · exact homission hline
  · exact hlines line (.inl (List.mem_of_mem_drop hline))
  · exact hlines _ (.inr (.inl rfl))
  · rw [List.mem_append, List.mem_map, List.mem_replicate]
    rintro (⟨c, -, hc⟩ | ⟨-, hc⟩)
    · split at hc <;> cases hc
    · exact hmark hc.symm
  · exact hlines line (.inr (.inr (List.mem_of_mem_take hline)))
  · exact homission hline

/-- Where nothing is left out, the lines of the excerpt without the marks are those of the text. -/
theorem Lies.eraseIdx_marks {mark : Char} (h : s.Lies above lead trail below)
    (habove : above.length ≤ around) (hbelow : below.length ≤ around) :
    (s.shownLines around mark above lead trail below).eraseIdx (above.length + 1)
      = s.source.lines := by
  have hrtake : above.rtake around = above := by
    rw [List.rtake, Nat.sub_eq_zero_of_le habove, List.drop_zero]
  rw [shownLines, if_neg (by omega), if_neg (by omega), hrtake, List.take_of_length_le hbelow,
    List.nil_append, List.append_nil, List.append_assoc,
    List.eraseIdx_append_of_length_le (Nat.le_add_right _ _), Nat.add_sub_cancel_left, h.lines]
  rfl

/-- **An excerpt is faithful.** Whatever piece of a text is underlined, as long as no newline breaks
it: the excerpt shows the line of the piece in full, with one mark under each character of the piece
and as many columns before the marks as there are characters before the piece on its line; and of
the lines above and below the nearest ones, unchanged, with the number of those that are left out.
If none are, the excerpt without the marks is the text. Where the mark is no newline, these are the
lines of the excerpt. -/
theorem underline_faithful {text : Text} {start stop : Nat}
    (hspan : ofBytes? text start stop = some s) (hcontent : '\n' ∉ s.content) (around : Nat)
    (mark : Char) :
    ∃ above lead trail below shown, s.Lies above lead trail below
      ∧ shown = s.shownLines around mark above lead trail below
      ∧ s.underline around mark = ['\n'].intercalate shown
      ∧ (mark ≠ '\n' → (s.underline around mark).lines = shown)
      ∧ (above.length ≤ around → below.length ≤ around →
        ['\n'].intercalate (shown.eraseIdx (above.length + 1)) = text) := by
  obtain ⟨rfl, -, -⟩ := ofBytes?_eq_some.mp hspan
  have hlies := lies_of_not_mem hcontent
  have hunderline : s.underline around mark
      = ['\n'].intercalate (s.shownLines around mark s.above s.lead s.trail s.below) := by
    rw [underline, shownLines, skipped_eq, skipped_eq, marks, List.map_const']
    rfl
  refine ⟨s.above, s.lead, s.trail, s.below, _, hlies, rfl, hunderline, fun hmark => ?_,
    fun habove hbelow => ?_⟩
  · rw [hunderline]
    exact Text.lines_intercalate (by simp [shownLines]) fun _ => hlies.newline_not_mem hmark
  · rw [hlies.eraseIdx_marks habove hbelow]
    exact (Text.lines_eq_iff.mp rfl).2.2

/-- Lines are left out on both sides, the text ends with a newline, a tab and a character of
several bytes stand before the piece, and another one in it. -/
theorem underline_faithful_tab :
    let text := "1\n2\n\tę<ż>.\n4\n".toList
    ∃ s, ofBytes? text 7 11 = some s ∧ '\n' ∉ s.content
      ∧ (∃ above lead trail below shown, s.Lies above lead trail below
        ∧ shown = s.shownLines 1 '~' above lead trail below
        ∧ s.underline 1 '~' = ['\n'].intercalate shown
        ∧ ('~' ≠ '\n' → (s.underline 1 '~').lines = shown)
        ∧ (above.length ≤ 1 → below.length ≤ 1 →
          ['\n'].intercalate (shown.eraseIdx (above.length + 1)) = text))
      ∧ s.underline 1 '~'
        = "[1 line skipped]\n2\n\tę<ż>.\n\t ~~~\n4\n[1 line skipped]".toList := by
  have hspan : ofBytes? "1\n2\n\tę<ż>.\n4\n".toList 7 11
      = some ⟨"1\n2\n\tę".toList, "<ż>".toList, ".\n4\n".toList⟩ := by decide
  exact ⟨_, hspan, by decide, underline_faithful hspan (by decide) 1 '~', by decide +kernel⟩

end Span

end TemplateEngine
