import TemplateEngine.Block
import TemplateEngine.Inclusion
import TemplateEngine.Proofs.Results

/-!
# Including is substitution

Includes are put in one after the other, in a text that changes under the search. Still every
search goes on in what the text was behind the tag (`Text.spliceFrom_append`), so the tags
found are those of the text as it was written, and each gets what stands for it
(`Text.spliceFrom_eq`).
-/

namespace TemplateEngine

/-- Include tags give a path. -/
theorem Tag.eq_inclusion_of_mem_split {text : Text} {found : Found}
    (h : found ∈ (split [.inclusion] text).1) :
    ∃ before path after, found = ⟨before, .inclusion path, after⟩ := by
  fun_induction split [.inclusion] text with
  | case1 => cases h
  | case2 text first hfirst _ ih =>
    rcases List.mem_cons.mp h with rfl | h
    · obtain ⟨before, tag, after⟩ := found
      have hkind := List.mem_singleton.mp (kind_mem_of_find hfirst)
      cases tag with
      | inclusion path => exact ⟨before, path, after, rfl⟩
      | _ => cases hkind
    · exact ih h

namespace Text

variable {part : Text → Tag.Found → Except TemplateError Spliced} {start : Nat} {text : Text}

theorem spliceFrom_of_find_eq_none (h : Tag.find [.inclusion] (text.drop start) = none) :
    spliceFrom part start text = .ok ⟨text, []⟩ := by
  rw [spliceFrom]
  split
  · rfl
  · next found hfound => cases h.symm.trans hfound

theorem spliceFrom_of_find {found : Tag.Found}
    (h : Tag.find [.inclusion] (text.drop start) = some found) :
    spliceFrom part start text = (do
      let first := start + found.gap.length
      let new ← part text found
      let whole ← spliceFrom part (first + new.text.length)
        (text.replaceRange first (first + found.tag.content.length) new.text)
      return ⟨whole.text, new.loads ++ whole.loads⟩) := by
  rw [spliceFrom]
  split
  · next hnone => cases hnone.symm.trans h
  · next first hfirst =>
    obtain rfl := Option.some.inj (hfirst.symm.trans h)
    rfl

/-- What follows a replaced tag is what followed the tag, and the search goes on there. -/
theorem spliceFrom_append {passed rest : Text} {found : Tag.Found}
    (h : Tag.find [.inclusion] rest = some found) :
    spliceFrom part passed.length (passed ++ rest) = (do
      let new ← part (passed ++ rest) found
      let whole ← spliceFrom part (passed ++ found.gap ++ new.text).length
        (passed ++ found.gap ++ new.text ++ found.rest)
      return ⟨whole.text, new.loads ++ whole.loads⟩) := by
  have hdrop : (passed ++ rest).drop passed.length = rest := List.drop_left
  have hreplace (new : Text) : (passed ++ rest).replaceRange (passed.length + found.gap.length)
      (passed.length + found.gap.length + found.tag.content.length) new
        = passed ++ found.gap ++ new ++ found.rest := by
    have htake : (passed ++ rest).take (passed.length + found.gap.length)
        = passed ++ found.gap := by
      rw [Tag.eq_of_find h, ← List.length_append, List.append_assoc, ← List.append_assoc,
        List.take_left]
    have hrest : (passed ++ rest).drop
        (passed.length + found.gap.length + found.tag.content.length) = found.rest := by
      rw [Tag.eq_of_find h, ← List.length_append, ← List.length_append, ← List.append_assoc,
        ← List.append_assoc, List.drop_left]
    rw [replaceRange, htake, hrest]
  rw [spliceFrom_of_find (hdrop.symm ▸ h)]
  simp only [hreplace, List.length_append]

/-- Replacing the tags in place is cutting the text at them and putting it together again. -/
theorem spliceFrom_eq (part : Tag.Found → Except TemplateError Spliced) (passed rest : Text) :
    spliceFrom (fun _ => part) passed.length (passed ++ rest)
      = ((Tag.split [.inclusion] rest).1.mapM part).map fun parts =>
        ⟨passed ++ interleave (Tag.gaps (Tag.split [.inclusion] rest)) (parts.map (·.text)),
          parts.flatMap (·.loads)⟩ := by
  fun_induction Tag.split [.inclusion] rest generalizing passed with
  | case1 text h =>
    rw [spliceFrom_of_find_eq_none (by rwa [List.drop_left])]
    simp [Tag.gaps, interleave, Except.map, pure, Except.pure]
  | case2 text found h _ ih =>
    rw [spliceFrom_append h, List.mapM_cons]
    cases part found with
    | error e => rfl
    | ok new =>
      simp only [bind, Except.bind]
      rw [ih]
      cases (Tag.split [.inclusion] found.rest).1.mapM part with
      | error e => rfl
      | ok parts => simp [Tag.gaps, interleave, Except.map, pure, Except.pure]

end Text

namespace Loader

variable {l : Loader} {levels depth : Nat} {text : Text}

/-- What stands for an include tag, with what is read for it. -/
def part (l : Loader) (text : Text) : (levels : Nat) → Tag.Found → Except TemplateError Spliced
  | 0, found => .error (.misuse (found.span text) .includeTooDeep)
  | levels + 1, found => do
    let path := found.tag.argument?.getD []
    let included ← l.splice levels (← l.load path)
    return ⟨included.text, path :: included.loads⟩

/-- At every depth, splicing comes to finding the parts for all tags of the text. -/
theorem splice_eq (l : Loader) (levels : Nat) (text : Text) :
    l.splice levels text
      = ((Tag.split [.inclusion] text).1.mapM (l.part text levels)).map fun parts =>
        ⟨Text.interleave (Tag.gaps (Tag.split [.inclusion] text)) (parts.map (·.text)),
          parts.flatMap (·.loads)⟩ := by
  cases levels with
  | zero =>
    rw [splice]
    cases h : Tag.find [.inclusion] text with
    | none =>
      have hstart : Tag.find [.inclusion] (text.drop 0) = none := h
      rw [Text.spliceFrom_of_find_eq_none hstart, Tag.split_of_find_eq_none h]
      simp [Tag.gaps, Text.interleave, Except.map, pure, Except.pure]
    | some found =>
      have hstart : Tag.find [.inclusion] (text.drop 0) = some found := h
      rw [Text.spliceFrom_of_find hstart, Tag.split_of_find h]
      rfl
  | succ levels => exact Text.spliceFrom_eq (l.part text (levels + 1)) [] text

/-- A text without include tags is already whole. -/
theorem splice_of_find_eq_none (levels : Nat) (h : Tag.find [.inclusion] text = none) :
    l.splice levels text = .ok ⟨text, []⟩ := by
  rw [splice_eq, Tag.split_of_find_eq_none h]
  simp [Tag.gaps, Text.interleave, Except.map, pure, Except.pure]

theorem part_eq_ok {before after : Text} {path : Quoted} {part : Spliced} :
    l.part text (levels + 1) ⟨before, .inclusion path, after⟩ = .ok part
      ↔ ∃ target whole, l.load path.text = .ok target ∧ l.splice levels target = .ok whole
        ∧ part = ⟨whole.text, path.text :: whole.loads⟩ := by
  constructor
  · intro h
    obtain ⟨target, load, h⟩ := exists_of_bind_eq_ok h
    obtain ⟨whole, within, h⟩ := exists_of_bind_eq_ok h
    exact ⟨target, whole, load, within, (Except.ok.inj h).symm⟩
  · rintro ⟨target, whole, load, within, rfl⟩
    simp [Loader.part, Tag.argument?, load, within, bind, Except.bind, pure, Except.pure]

theorem part_eq_error {before after : Text} {path : Quoted} {e : TemplateError} :
    l.part text (levels + 1) ⟨before, .inclusion path, after⟩ = .error e
      ↔ l.load path.text = .error e
        ∨ ∃ target, l.load path.text = .ok target ∧ l.splice levels target = .error e := by
  simp only [Loader.part, Tag.argument?, Option.getD_some]
  cases l.load path.text with
  | error e' => simp [bind, Except.bind]
  | ok target =>
    cases hw : l.splice levels target <;> simp [hw, bind, Except.bind, pure, Except.pure]

theorem load_eq_ok {path target : Text} :
    l.load path = .ok target ↔ l.isFile path = true ∧ l.read path = .ok target := by
  rw [load]
  split <;> simp_all

theorem load_eq_error {path : Text} {e : TemplateError} :
    l.load path = .error e ↔ l.isFile path = false ∧ e = .notFound path
      ∨ l.isFile path = true ∧ l.read path = .error e := by
  rw [load]
  cases l.isFile path with
  | true => simp
  | false => simp [@eq_comm _ e]

/-- The text for a tag is that of the part that stands for it. -/
theorem includes_iff {found : Tag.Found} {fill : Text}
    (h : found ∈ (Tag.split [.inclusion] text).1) :
    l.Includes depth found fill
      ↔ ∃ part, l.part text (maxIncludeDepth - depth) found = .ok part ∧ part.text = fill := by
  obtain ⟨before, path, after, rfl⟩ := Tag.eq_inclusion_of_mem_split h
  constructor
  · rintro ⟨shallow, isFile, read, within⟩
    rw [show maxIncludeDepth - depth = maxIncludeDepth - (depth + 1) + 1 by omega]
    exact ⟨_, part_eq_ok.mpr ⟨_, _, load_eq_ok.mpr ⟨isFile, read⟩, within, rfl⟩, rfl⟩
  · rintro ⟨part, hpart, rfl⟩
    rcases Nat.lt_or_ge depth maxIncludeDepth with shallow | deep
    · rw [show maxIncludeDepth - depth = maxIncludeDepth - (depth + 1) + 1 by omega] at hpart
      obtain ⟨target, whole, load, within, rfl⟩ := part_eq_ok.mp hpart
      change l.Includes depth _ whole.text
      exact .intro shallow (load_eq_ok.mp load).1 (load_eq_ok.mp load).2 within
    · rw [Nat.sub_eq_zero_of_le deep] at hpart
      cases hpart

/-- A tag is refused with the error that there is instead of its part. -/
theorem refuses_iff {found : Tag.Found} {e : TemplateError}
    (h : found ∈ (Tag.split [.inclusion] text).1) :
    l.Refuses depth text found e ↔ l.part text (maxIncludeDepth - depth) found = .error e := by
  obtain ⟨before, path, after, rfl⟩ := Tag.eq_inclusion_of_mem_split h
  rcases Nat.lt_or_ge depth maxIncludeDepth with shallow | deep
  · rw [show maxIncludeDepth - depth = maxIncludeDepth - (depth + 1) + 1 by omega, part_eq_error,
      load_eq_error]
    constructor
    · intro h
      cases h with
      | tooDeep deep => exact absurd deep (Nat.not_le.mpr shallow)
      | missing _ isFile => exact .inl (.inl ⟨isFile, rfl⟩)
      | unreadable _ isFile read => exact .inl (.inr ⟨isFile, read⟩)
      | within _ isFile read within => exact .inr ⟨_, load_eq_ok.mpr ⟨isFile, read⟩, within⟩
    · rintro ((⟨isFile, rfl⟩ | ⟨isFile, read⟩) | ⟨target, load, within⟩)
      · exact .missing shallow isFile
      · exact .unreadable shallow isFile read
      · exact .within shallow (load_eq_ok.mp load).1 (load_eq_ok.mp load).2 within
  · rw [Nat.sub_eq_zero_of_le deep]
    constructor
    · intro h
      cases h with
      | tooDeep => rfl
      | missing shallow | unreadable shallow | within shallow =>
        exact absurd deep (Nat.not_le.mpr shallow)
    · intro h
      obtain rfl := Except.error.inj h
      exact .tooDeep deep

theorem exists_includes_iff {found : Tag.Found} (h : found ∈ (Tag.split [.inclusion] text).1) :
    (∃ fill, l.Includes depth found fill)
      ↔ ∃ part, l.part text (maxIncludeDepth - depth) found = .ok part := by
  simp only [includes_iff h]
  exact ⟨fun ⟨_, part, hpart, _⟩ => ⟨part, hpart⟩, fun ⟨part, hpart⟩ => ⟨_, part, hpart, rfl⟩⟩

/-- The texts for the tags of a text are those of the parts. -/
theorem forall₂_includes_iff {fills : List Text} :
    List.Forall₂ (l.Includes depth) (Tag.split [.inclusion] text).1 fills ↔ ∃ parts,
      (Tag.split [.inclusion] text).1.mapM (l.part text (maxIncludeDepth - depth)) = .ok parts
        ∧ parts.map (·.text) = fills := by
  rw [forall₂_iff_of_mem fun found hfound fill => includes_iff hfound, forall₂_exists_iff]
  simp only [mapM_eq_ok]

/-- A text can be spliced if there is a text for each tag. -/
theorem exists_splice_eq_ok :
    (∃ whole, l.splice (maxIncludeDepth - depth) text = .ok whole)
      ↔ ∀ found ∈ (Tag.split [.inclusion] text).1, ∃ fill, l.Includes depth found fill := by
  have hparts : (∃ whole, l.splice (maxIncludeDepth - depth) text = .ok whole) ↔ ∃ parts,
      (Tag.split [.inclusion] text).1.mapM (l.part text (maxIncludeDepth - depth))
        = .ok parts := by
    rw [splice_eq]
    cases List.mapM (l.part text (maxIncludeDepth - depth)) _ <;> simp [Except.map]
  rw [hparts, exists_mapM_eq_ok]
  exact forall₂_congr fun found hfound => (exists_includes_iff hfound).symm

/-- Splicing puts the texts in the places of the tags. -/
theorem splice_eq_ok {result : Text} :
    (∃ loads, l.splice (maxIncludeDepth - depth) text = .ok ⟨result, loads⟩)
      ↔ ∃ fills, List.Forall₂ (l.Includes depth) (Tag.split [.inclusion] text).1 fills
        ∧ result = Text.interleave (Tag.gaps (Tag.split [.inclusion] text)) fills := by
  rw [splice_eq]
  constructor
  · rintro ⟨loads, h⟩
    obtain ⟨parts, hparts, heq⟩ := exists_of_map_eq_ok h
    exact ⟨_, forall₂_includes_iff.mpr ⟨parts, hparts, rfl⟩, (congrArg Spliced.text heq).symm⟩
  · rintro ⟨fills, hfills, rfl⟩
    obtain ⟨parts, hparts, rfl⟩ := forall₂_includes_iff.mp hfills
    exact ⟨_, congrArg (Except.map _) hparts⟩

/-- An error comes from the first tag without a text. -/
theorem splice_eq_error {e : TemplateError} :
    l.splice (maxIncludeDepth - depth) text = .error e
      ↔ ∃ before found behind, (Tag.split [.inclusion] text).1 = before ++ found :: behind
        ∧ (∀ earlier ∈ before, ∃ fill, l.Includes depth earlier fill)
        ∧ l.Refuses depth text found e := by
  have hparts : l.splice (maxIncludeDepth - depth) text = .error e ↔
      (Tag.split [.inclusion] text).1.mapM (l.part text (maxIncludeDepth - depth))
        = .error e := by
    rw [splice_eq]
    cases List.mapM (l.part text (maxIncludeDepth - depth)) _ <;> simp [Except.map]
  rw [hparts, mapM_eq_error]
  refine exists₃_congr fun before found behind => and_congr_right fun hsplit => ?_
  have hmem : ∀ tag ∈ before ++ found :: behind, tag ∈ (Tag.split [.inclusion] text).1 :=
    fun tag htag => hsplit ▸ htag
  rw [refuses_iff (hmem found (by simp))]
  refine and_congr_left' (forall₂_congr fun earlier hearlier => ?_)
  exact (exists_includes_iff (hmem earlier (by simp [hearlier]))).symm

/-- **Including is substitution.** A text is cut at its include tags. It can be spliced inside of
`depth` others if and only if there is a text for each tag, and then it is the text as it was
with these texts in the places of the tags. Otherwise the error is that of the first tag for which
there is none. -/
theorem splice_substitutes (l : Loader) (depth : Nat) (text : Text) :
    let cut := Tag.split [.inclusion] text
    Text.interleave (Tag.gaps cut) (cut.1.map (·.tag.content)) = text
      ∧ ((∃ whole, l.splice (maxIncludeDepth - depth) text = .ok whole)
        ↔ ∀ found ∈ cut.1, ∃ fill, l.Includes depth found fill)
      ∧ (∀ result, (∃ loads, l.splice (maxIncludeDepth - depth) text = .ok ⟨result, loads⟩)
        ↔ ∃ fills, List.Forall₂ (l.Includes depth) cut.1 fills
          ∧ result = Text.interleave (Tag.gaps cut) fills)
      ∧ ∀ e, l.splice (maxIncludeDepth - depth) text = .error e
        ↔ ∃ before found behind, cut.1 = before ++ found :: behind
          ∧ (∀ earlier ∈ before, ∃ fill, l.Includes depth earlier fill)
          ∧ l.Refuses depth text found e := by
  exact ⟨Tag.interleave_split _ text, exists_splice_eq_ok, fun _ => splice_eq_ok,
    fun _ => splice_eq_error⟩

end Loader

end TemplateEngine
