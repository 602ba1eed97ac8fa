import TemplateEngine.Outline.Gaps
import TemplateEngine.Proofs.Meaning
import TemplateEngine.Proofs.Plain

/-!
# Text between tags is written as it stands

The literals of a plan are the texts between the tags of the template, less the whitespace next to
statements (`Plan.literals_eq_kept`): none is lost, written twice or moved. They are plain
instructions, so this is a matter of the marks alone (`Assembly.literals_of_read`), and the marks
are read off the same cut of the text (`Outline.texts_ofTags`).

While the marks are found, an indent is looked for in the text since the last tag only. That is as
good as the whole text, since a tag ends in a brace and so cannot be part of an indent
(`Text.endsIndented_append`).
-/

namespace TemplateEngine

/-! ## Indents -/

theorem getLast?_append_eq_some {α : Type} (front : List α) {back : List α} {c : α}
    (h : back.getLast? = some c) : (front ++ back).getLast? = some c := by
  rw [List.getLast?_append, h, Option.some_or]

theorem TagKind.getLast?_closing (kind : TagKind) : kind.closing.getLast? = some '\x7d' := by
  cases kind <;> decide

/-- Every tag ends in a brace. -/
theorem Tag.getLast?_content (t : Tag) : t.content.getLast? = some '\x7d' := by
  refine getLast?_append_eq_some _ ?_
  cases t with
  | expression | statement | hashComment | inherits | block | inclusion =>
    exact getLast?_append_eq_some _ (TagKind.getLast?_closing _)
  | blockComment label =>
    have hend : endComment.getLast? = some '\x7d' := by decide
    cases label <;> exact getLast?_append_eq_some _ hend
  | endBlock name =>
    cases name with
    | none => decide
    | some => exact getLast?_append_eq_some _ (TagKind.getLast?_closing _)

/-- An indent does not reach back over a brace. -/
theorem Text.endsIndented_append {passed gap : Text}
    (hpassed : ∀ c ∈ passed.getLast?, c = '\x7d') :
    (passed ++ gap).EndsIndented ↔ gap.EndsIndented := by
  constructor
  · rintro ⟨line, n, heq⟩
    rcases List.append_eq_append_iff.mp heq with ⟨between, -, hgap⟩ | ⟨between, hbefore, hbehind⟩
    · exact ⟨between, n, hgap⟩
    · rcases List.eq_nil_or_concat between with rfl | ⟨front, c, rfl⟩
      · exact ⟨[], n, hbehind.symm⟩
      · -- the last character passed would be part of the indent
        have hc : c = '\x7d' := hpassed c (by simp [hbefore])
        have hmem : c ∈ '\n' :: List.replicate (n + 1) ' ' := by simp [hbehind]
        rw [hc] at hmem
        rcases List.mem_cons.mp hmem with hmem | hmem
        · cases hmem
        · cases List.eq_of_mem_replicate hmem
  · rintro ⟨line, n, rfl⟩
    exact ⟨passed ++ line, n, by simp⟩

/-! ## What is kept -/

namespace Options

variable {o : Options} {text passed : Text} {previous : Option Tag.Found}

theorem keepAfter_eq (o : Options) (gap : Text) :
    o.keepAfter gap = if o.trimBlocks then gap.dropNewline else gap := by
  rw [keepAfter]
  congr 1
  cases gap with
  | nil => rfl
  | cons c gap =>
    by_cases hc : c = '\n'
    · subst hc
      simp [Text.after?, Text.dropNewline]
    · simp [Text.after?, Text.dropNewline, hc]

theorem keepBetween_last (o : Options) (text : Text) (previous : Option Tag.Found) (gap : Text) :
    o.keepBetween (previous.any (·.tag.isStatement)) false gap = o.keep text previous none gap := by
  rw [keepBetween, keep, keepAfter_eq]
  cases previous.any (·.tag.isStatement) <;> simp

/-- Looking at the text since the last tag keeps what looking at all of it does. -/
theorem keepBetween_eq_keep {found : Tag.Found} (previous : Option Tag.Found)
    (htext : text = passed ++ found.gap ++ found.tag.content ++ found.rest)
    (hpassed : ∀ c ∈ passed.getLast?, c = '\x7d') :
    o.keepBetween (previous.any (·.tag.isStatement)) found.tag.isStatement found.gap
      = o.keep text previous (some found) found.gap := by
  have hbefore : (found.span text).before = passed ++ found.gap := by
    rw [Tag.Found.source_span htext]
  have hindent : (found.span text).before.EndsIndented ↔ found.gap.endsInIndent = true := by
    rw [hbefore, Text.endsIndented_append hpassed, Text.endsInIndent_iff]
  rw [keepBetween, keep, keepAfter_eq, keepBefore]
  simp only [Option.any_some, hindent]
  cases found.tag.isStatement <;> cases previous.any (·.tag.isStatement) <;> simp

end Options

/-! ## Marks -/

namespace Mark

/-- The text of a mark that is one. -/
def text? : Mark → Option Text
  | .text literal => some literal
  | .expression _ _ | .statement _ _ => none

theorem text?_ofText (text : Text) : (ofText text).filterMap text? = [text].filter (· ≠ []) := by
  cases text <;> rfl

theorem text?_ofTag (found : Tag.Found) : (ofTag found).filterMap text? = [] := by
  rw [ofTag]
  split <;> rfl

end Mark

/-- The texts among the marks are what is kept between the tags. -/
theorem Outline.texts_ofTags {text passed : Text} (o : Options) (previous : Option Tag.Found)
    (rest : Text) (htext : text = passed ++ rest) (hpassed : ∀ c ∈ passed.getLast?, c = '\x7d') :
    (Mark.ofTags o (previous.any (·.tag.isStatement)) (Tag.split tagKinds rest).1
        (Tag.split tagKinds rest).2).filterMap Mark.text?
      = (keptFrom o text previous (Tag.split tagKinds rest).1
        (Tag.split tagKinds rest).2).filter (· ≠ []) := by
  fun_induction Tag.split tagKinds rest generalizing passed previous with
  | case1 rest =>
    rw [Mark.ofTags, o.keepBetween_last text, Mark.text?_ofText, keptFrom]
  | case2 rest found hfind _ ih =>
    rw [Tag.eq_of_find hfind, ← List.append_assoc, ← List.append_assoc] at htext
    have hlast : ∀ c ∈ (passed ++ found.gap ++ found.tag.content).getLast?, c = '\x7d' := by
      intro c hc
      rw [List.getLast?_append, found.tag.getLast?_content] at hc
      exact (Option.some.inj hc).symm
    have hothers := ih (some found) htext hlast
    rw [Mark.ofTags, List.filterMap_append, List.filterMap_append, Mark.text?_ofTag,
      Mark.text?_ofText, o.keepBetween_eq_keep previous htext hpassed, List.append_nil,
      show found.tag.isStatement = (some found).any (·.tag.isStatement) from rfl, hothers,
      keptFrom, ← List.filter_append, List.singleton_append]

/-- Nothing is dropped if both options are off. -/
theorem Outline.kept_eq_gaps {o : Options} {text : Text} (htrim : o.trimBlocks = false)
    (hlstrip : o.lstripBlocks = false) :
    kept o text = Tag.gaps (Tag.split tagKinds text) := by
  have hkeep (previous next : Option Tag.Found) (gap : Text) :
      o.keep text previous next gap = gap := by
    simp [Options.keep, htrim, hlstrip]
  have hfrom (previous : Option Tag.Found) (tags : List Tag.Found) (last : Text) :
      keptFrom o text previous tags last = Tag.gaps (tags, last) := by
    induction tags generalizing previous with
    | nil => rw [keptFrom, hkeep]; rfl
    | cons found tags ih => rw [keptFrom, hkeep, ih]; rfl
  exact hfrom none _ _

/-! ## Literals -/

theorem Instruction.literal?_eq_some {i : Instruction} {text : Text} :
    i.literal? = some text ↔ i = .literal text := by
  cases i <;> simp [literal?]

namespace Assembly

variable {o : Options} {text : Text} {a b : Assembly} {marks : List Mark}

/-- Reading marks adds their texts to the literals, and nothing else. -/
theorem literals_of_read (h : a.read o text marks = .ok b) :
    b.plain.filterMap Instruction.literal?
      = a.plain.filterMap Instruction.literal? ++ marks.filterMap Mark.text? := by
  induction marks generalizing a with
  | nil =>
    cases h
    simp
  | cons m marks ih =>
    obtain ⟨c, hstep, hrest⟩ := read_cons_eq_ok h
    obtain ⟨added, hadds, hplain⟩ := hstep.plain
    have hliterals : added.filterMap Instruction.literal? = [m].filterMap Mark.text? := by
      cases hadds <;> rfl
    rw [ih hrest, hplain, List.filterMap_append, hliterals, List.append_assoc,
      ← List.filterMap_append, List.singleton_append]

end Assembly

namespace Plan

theorem literals_eq_plain (a : Assembly) :
    literals ⟨a.code⟩ = a.plain.filterMap Instruction.literal? := by
  refine (Instruction.filterMap_filter_isPlain (fun {i b} h => ?_) a.code.toList).symm
  rw [Instruction.literal?_eq_some.mp h]
  rfl

/-- **Text between tags is written as it stands.** The literals of a plan are what is kept of the
texts between the tags of the template, in order and but for the empty ones. With both options
off all of it is kept, and with the tags in between it is the template. -/
theorem literals_eq_kept {o : Options} {text : Text} {plan : Plan} (hfree : text.CommentFree)
    (hplan : Plan.compile o text = .ok plan) :
    let cut := Tag.split Outline.tagKinds text
    plan.literals = (Outline.kept o text).filter (· ≠ [])
      ∧ Text.interleave (Tag.gaps cut) (cut.1.map (·.tag.content)) = text
      ∧ (o.trimBlocks = false → o.lstripBlocks = false → Outline.kept o text = Tag.gaps cut) := by
  intro cut
  rw [compile, hfree.stripComments] at hplan
  obtain ⟨a, ha, hfinish⟩ := read_eq_ok hplan
  obtain ⟨-, rfl⟩ := Assembly.finish_eq_ok hfinish
  refine ⟨?_, Tag.interleave_split _ text, Outline.kept_eq_gaps⟩
  have htexts := Outline.texts_ofTags o none text (List.nil_append text).symm (by simp)
  rw [literals_eq_plain, Assembly.literals_of_read ha]
  exact htexts

/-- Both kinds of whitespace are dropped from the text between two statements. -/
theorem literals_eq_kept_list :
    let text := "<ul>\n  {% for i in items %}\n  <li>\n  {% endfor %}\n</ul>".toList
    ∃ plan, compile {} text = .ok plan
      ∧ plan.literals = ["<ul>\n".toList, "  <li>\n".toList, "</ul>".toList] := by
  intro text
  have hfree : Text.CommentFree text :=
    ⟨Option.isNone_iff_eq_none.mp (by decide +kernel),
      Option.isNone_iff_eq_none.mp (by decide +kernel)⟩
  have hcompiles : (compile {} text).toOption.isSome := by decide +kernel
  obtain ⟨plan, hplan⟩ := Option.isSome_iff_exists.mp hcompiles
  refine ⟨plan, eq_ok_of_toOption hplan, ?_⟩
  rw [(literals_eq_kept hfree (eq_ok_of_toOption hplan)).1]
  decide +kernel

end Plan

end TemplateEngine
