import TemplateEngine.Proofs.Matching
import TemplateEngine.Proofs.Splicing

/-!
# Tags across seams

The search for includes goes on behind each text that was put in. So no piece that the result is
put together from holds an include tag (`Loader.Pieces.find_eq_none`), but the seams between the
pieces are not searched: a tag may begin in one piece and end in a later one
(`Resolver.includes_leaves_tag`). Such tags are all that is left (`Loader.includes_complete`).

Since a tag is found if the grammar derives it, this is a fact about texts: a tag that stands in
two texts one behind the other stands in one of them or goes across the seam
(`Tag.find_append_eq_none_iff`).
-/

namespace TemplateEngine

/-! ## Seams of texts -/

/-- A tag of the kind goes across the seam between two texts. -/
def TagKind.Crosses (kind : TagKind) (before after : Text) : Prop :=
  ∃ start stop argument, start ≠ [] ∧ stop ≠ [] ∧ start <:+ before ∧ stop <+: after
    ∧ kind.Matches (start ++ stop) argument

variable {kind : TagKind} {before after : Text}

/-- More text in front leaves the tags across a seam as they are. -/
theorem TagKind.Crosses.append_left (h : kind.Crosses before after) (front : Text) :
    kind.Crosses (front ++ before) after := by
  obtain ⟨start, stop, argument, hstart, hstop, hbefore, hafter, hmatches⟩ := h
  exact ⟨start, stop, argument, hstart, hstop, hbefore.trans (List.suffix_append _ _), hafter,
    hmatches⟩

namespace Tag

/-- A search finds nothing in a text in which the grammar derives no part. -/
theorem find_eq_none_iff_forall {text : Text} : find [kind] text = none
    ↔ ∀ content argument, kind.Matches content argument → ¬content <:+: text := by
  rw [Buffer.find_eq_none_iff []]
  constructor
  · rintro h content argument hmatches ⟨before, after, rfl⟩
    exact h _ _ argument (Nat.zero_le _) ⟨before, content, after, rfl, hmatches, rfl, rfl⟩
  · rintro h start stop argument - ⟨before, content, after, htext, hmatches, -⟩
    exact h content argument hmatches ⟨before, after, htext.symm⟩

/-- What a search passes over holds no tag. -/
theorem Skips.find_eq_none {passed rest : Text} (h : Skips [kind] passed rest) :
    find [kind] passed = none := by
  refine find_eq_none_iff_forall.mpr fun content argument hmatches hpart => ?_
  obtain ⟨before, after, rfl⟩ := hpart
  have htext : before ++ content ++ after ++ rest = before ++ (content ++ (after ++ rest)) := by
    simp
  have hlength := (h.prefix_of_matches hmatches htext).length_le
  have hpos := List.length_pos_of_ne_nil hmatches.ne_nil
  simp only [List.length_append] at hlength
  omega

/-- A tag stands in one of two texts or goes across the seam. -/
theorem find_append_eq_none_iff : find [kind] (before ++ after) = none
    ↔ find [kind] before = none ∧ find [kind] after = none ∧ ¬kind.Crosses before after := by
  simp only [find_eq_none_iff_forall]
  constructor
  · intro h
    refine ⟨fun content argument hmatches hpart => ?_, fun content argument hmatches hpart => ?_,
      ?_⟩
    · exact h content argument hmatches (hpart.trans (List.prefix_append _ _).isInfix)
    · exact h content argument hmatches (hpart.trans (List.suffix_append _ _).isInfix)
    · rintro ⟨start, stop, argument, -, -, hstart, hstop, hmatches⟩
      refine h _ argument hmatches (List.infix_append_iff.mpr (.inr (.inr ?_)))
      exact ⟨start, stop, rfl, hstart, hstop⟩
  · rintro ⟨hbefore, hafter, hcrosses⟩ content argument hmatches hpart
    rcases List.infix_append_iff.mp hpart with h | h | ⟨start, stop, rfl, hstart, hstop⟩
    · exact hbefore _ _ hmatches h
    · exact hafter _ _ hmatches h
    -- a tag with nothing on one side of the seam is in the other text
    · by_cases hnil : start = []
      · subst hnil
        exact hafter _ _ hmatches hstop.isInfix
      · by_cases hnil' : stop = []
        · subst hnil'
          rw [List.append_nil] at hmatches
          exact hbefore _ _ hmatches hstart.isInfix
        · exact hcrosses ⟨start, stop, argument, hnil, hnil', hstart, hstop, hmatches⟩

/-- Pieces without tags, put together, hold a tag only if it goes across one of the seams. -/
theorem find_flatten_eq_none_iff {pieces : List Text}
    (h : ∀ piece ∈ pieces, find [kind] piece = none) : find [kind] pieces.flatten = none
      ↔ ∀ front back, pieces = front ++ back → ¬kind.Crosses front.flatten back.flatten := by
  constructor
  · rintro hnone front back rfl
    rw [List.flatten_append] at hnone
    exact (find_append_eq_none_iff.mp hnone).2.2
  · intro hseams
    induction pieces with
    | nil => rfl
    | cons piece pieces ih =>
      obtain ⟨hpiece, hpieces⟩ := List.forall_mem_cons.mp h
      refine find_append_eq_none_iff.mpr ⟨hpiece, ih hpieces ?_, ?_⟩
      · rintro front back rfl hcrosses
        exact hseams (piece :: front) back rfl (hcrosses.append_left piece)
      · have hseam := hseams [piece] pieces rfl
        rwa [List.flatten_singleton] at hseam

end Tag

/-! ## The pieces of a text with its includes -/

namespace Loader

variable {l : Loader} {text : Text} {levels : Nat}

/-- No include tag is in a piece. -/
theorem Pieces.find_eq_none {pieces : List Text} (h : l.Pieces text pieces) :
    ∀ piece ∈ pieces, Tag.find [.inclusion] piece = none := by
  induction h with
  | whole alone => exact List.forall_mem_singleton.mpr alone
  | splice first _ _ _ inside behind =>
    exact List.forall_mem_cons.mpr ⟨(Tag.skips_of_find first).1.find_eq_none,
      List.forall_mem_append.mpr ⟨inside, behind⟩⟩

/-- There is one way to cut. -/
theorem Pieces.unique {pieces others : List Text} (h : l.Pieces text pieces)
    (h' : l.Pieces text others) : pieces = others := by
  induction h generalizing others with
  | whole alone =>
    cases h' with
    | whole => rfl
    | splice first => cases alone.symm.trans first
  | splice first load _ _ inside behind =>
    cases h' with
    | whole alone => cases alone.symm.trans first
    | splice first' load' inside' behind' =>
      cases first.symm.trans first'
      cases load.symm.trans load'
      rw [inside inside', behind behind']

/-- If what stands for each tag is in pieces, so is the text with its tags replaced. -/
theorem exists_pieces_of_parts {root : Text} {parts : List Spliced}
    (within : ∀ before path after part,
      l.part root levels ⟨before, .inclusion path, after⟩ = .ok part →
        ∃ target inner, l.load path.text = .ok target ∧ l.Pieces target inner
          ∧ part.text = inner.flatten)
    (h : (Tag.split [.inclusion] text).1.mapM (l.part root levels) = .ok parts) :
    ∃ pieces, l.Pieces text pieces
      ∧ Text.interleave (Tag.gaps (Tag.split [.inclusion] text)) (parts.map (·.text))
        = pieces.flatten := by
  have hparts := mapM_eq_ok.mp h
  clear h
  fun_induction Tag.split [.inclusion] text generalizing parts with
  | case1 text hnone =>
    obtain rfl := List.forall₂_nil_left_iff.mp hparts
    exact ⟨[text], .whole hnone, by simp [Tag.gaps, Text.interleave]⟩
  | case2 text found hfound _ ih =>
    obtain ⟨part, others, hpart, hothers, rfl⟩ := List.forall₂_cons_left_iff.mp hparts
    have hmem : found ∈ (Tag.split [.inclusion] text).1 := by
      rw [Tag.split_of_find hfound]
      exact List.mem_cons_self
    obtain ⟨before, path, after, rfl⟩ := Tag.eq_inclusion_of_mem_split hmem
    obtain ⟨target, inner, load, inside, hinner⟩ := within before path after part hpart
    obtain ⟨outer, behind, houter⟩ := ih hothers
    refine ⟨before :: (inner ++ outer), .splice hfound load inside behind, ?_⟩
    rw [Tag.gaps] at houter ⊢
    rw [List.map_cons, List.map_cons, List.cons_append, Text.interleave, houter, hinner,
      List.flatten_cons, List.flatten_append, List.append_assoc]

/-- What is spliced is put together from the pieces. -/
theorem exists_pieces_of_splice {whole : Spliced} (h : l.splice levels text = .ok whole) :
    ∃ pieces, l.Pieces text pieces ∧ whole.text = pieces.flatten := by
  induction levels generalizing text whole with
  | zero =>
    rw [splice_eq] at h
    obtain ⟨parts, hparts, rfl⟩ := exists_of_map_eq_ok h
    refine exists_pieces_of_parts (fun before path after part hpart => ?_) hparts
    cases hpart
  | succ levels ih =>
    rw [splice_eq] at h
    obtain ⟨parts, hparts, rfl⟩ := exists_of_map_eq_ok h
    refine exists_pieces_of_parts (fun before path after part hpart => ?_) hparts
    obtain ⟨target, whole, load, hwhole, rfl⟩ := part_eq_ok.mp hpart
    obtain ⟨inner, inside, hinner⟩ := ih hwhole
    exact ⟨target, inner, load, inside, hinner⟩

/-- **An include tag that is left goes across a seam.** What comes of a text by including is put
together from pieces, which the text and the loader determine: what stands between the include tags
of the text and of all templates that are put in. None of the pieces holds an include tag, and so
there is none in the result unless one begins in a piece and ends behind it. -/
theorem includes_complete {whole : Spliced} (h : l.includes text = .ok whole) :
    ∃ pieces, l.Pieces text pieces ∧ (∀ others, l.Pieces text others → others = pieces)
      ∧ whole.text = pieces.flatten
      ∧ (∀ piece ∈ pieces, Tag.find [.inclusion] piece = none)
      ∧ (Tag.find [.inclusion] whole.text = none
        ↔ ∀ front back, pieces = front ++ back →
          ¬TagKind.inclusion.Crosses front.flatten back.flatten) := by
  obtain ⟨pieces, hpieces, hwhole⟩ := exists_pieces_of_splice h
  refine ⟨pieces, hpieces, fun others hothers => hothers.unique hpieces, hwhole,
    hpieces.find_eq_none, ?_⟩
  rw [hwhole]
  exact Tag.find_flatten_eq_none_iff hpieces.find_eq_none

/-- A brace before a tag and the text of a template behind it come close to one. -/
theorem includes_complete_braces :
    let r := Resolver.ofTemplates [("row".toList, "\x7b% include 'cell' %\x7d% include".toList),
      ("cell".toList, "% ".toList)]
    let text := "\x7b\x7b% include 'row' %\x7d 'row' %\x7d".toList
    ∃ whole, r.loader.includes text = .ok whole
      ∧ ∃ pieces, r.loader.Pieces text pieces
        ∧ pieces.flatten = "\x7b% % include 'row' %\x7d".toList
        ∧ ∀ front back, pieces = front ++ back →
          ¬TagKind.inclusion.Crosses front.flatten back.flatten := by
  intro r text
  have htext : (r.loader.includes text).toOption.map (·.text)
      = some "\x7b% % include 'row' %\x7d".toList := by
    decide +kernel
  obtain ⟨whole, hwhole, htext⟩ := Option.map_eq_some_iff.mp htext
  have hwhole := eq_ok_of_toOption hwhole
  obtain ⟨pieces, hpieces, -, hflatten, -, hiff⟩ := includes_complete hwhole
  refine ⟨whole, hwhole, pieces, hpieces, hflatten.symm.trans htext, hiff.mp ?_⟩
  rw [htext]
  decide +kernel

end Loader

namespace Resolver

/-- What stands before and behind an include tag can be one itself, once nothing is between. -/
theorem includes_leaves_tag :
    let r := Resolver.ofTemplates [("b".toList, []), ("a".toList, "x".toList)]
    ∃ whole, r.includes "\x7b\x7b% include 'b' %\x7d% include 'a' %\x7d".toList = .ok whole
      ∧ whole.text = "\x7b% include 'a' %\x7d".toList
      ∧ Tag.find [.inclusion] whole.text ≠ none := by
  intro r
  have htext : (r.includes "\x7b\x7b% include 'b' %\x7d% include 'a' %\x7d".toList).toOption.map
      (·.text) = some "\x7b% include 'a' %\x7d".toList := by
    decide +kernel
  obtain ⟨whole, hwhole, htext⟩ := Option.map_eq_some_iff.mp htext
  refine ⟨whole, eq_ok_of_toOption hwhole, htext, ?_⟩
  rw [htext]
  decide +kernel

end Resolver

end TemplateEngine
