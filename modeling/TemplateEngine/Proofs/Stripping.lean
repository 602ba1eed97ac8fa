import TemplateEngine.Comment
import TemplateEngine.Outline.Gaps
import TemplateEngine.Proofs.Tagless

/-!
# What stripping leaves

Comments are stripped in two passes. Each pass leaves no comment of its own kind
(`Text.find_stripTags`). But where the second pass takes a comment section out, what stands around
the section comes together, and it may make up a comment of the first kind
(`Text.stripComments_leaves_comment`). This is the only way in which a comment can be left over: if
nothing joins to a comment where a section is taken out (`Text.ClosesUp`), then no comment is left,
and stripping again changes nothing (`Text.stripComments_complete`).
-/

namespace TemplateEngine

namespace Text

variable {kind : TagKind} {o : Options} {text before after : Text} {found : Tag.Found}

/-! ## One pass -/

/-- The pass for one kind of comments leaves none of them. -/
theorem find_stripTags (kind : TagKind) (o : Options) (text : Text) :
    Tag.find [kind] (text.stripTags kind o) = none := by
  fun_induction stripTags kind o text with
  | case1 text hnone => exact hnone
  | case2 text found _ _ ih => exact ih

theorem stripTags_of_find_eq_some (h : Tag.find [kind] text = some found) :
    text.stripTags kind o
      = (o.keepBefore found.gap ++ o.keepAfter found.rest).stripTags kind o := by
  rw [stripTags]
  split
  · next hnone => cases hnone.symm.trans h
  · next first hfirst =>
    obtain rfl := Option.some.inj (hfirst.symm.trans h)
    rfl

theorem length_stripTags_le (kind : TagKind) (o : Options) (text : Text) :
    (text.stripTags kind o).length ≤ text.length := by
  fun_induction stripTags kind o text with
  | case1 text _ => exact Nat.le_refl _
  | case2 text found _ hlt ih => exact Nat.le_trans ih (Nat.le_of_lt hlt)

/-- A text that holds a comment gets shorter. -/
theorem length_stripTags_lt (h : Tag.find [kind] text = some found) (o : Options) :
    (text.stripTags kind o).length < text.length := by
  rw [stripTags_of_find_eq_some h]
  exact Nat.lt_of_le_of_lt (length_stripTags_le kind o _) (length_lt_of_takeOut o h)

/-! ## Comments on one line -/

/-- The text is a comment on one line, from its opening to some closing. -/
def IsRemark (text : Text) : Prop :=
  ∃ body : Text, body ≠ [] ∧ '\n' ∉ body ∧ text = (Tag.hashComment body).content

theorem ne_nil_of_someUpTo? {stop rest : Text} (h : someUpTo? text stop = some (before, rest)) :
    before ≠ [] := by
  cases text with
  | nil => cases h
  | cons c text =>
    rw [someUpTo?] at h
    split at h
    · cases h
    · obtain ⟨_, -, heq⟩ := Option.map_eq_some_iff.mp h
      rw [← (Prod.mk.inj heq).1]
      exact List.cons_ne_nil _ _

theorem isSome_read?_of_isRemark {remark : Text} (h : remark.IsRemark) (rest : Text) :
    (TagKind.hashComment.read? (remark ++ rest)).isSome := by
  obtain ⟨body, hne, hline, rfl⟩ := h
  have hopening : (Tag.hashComment body).content ++ rest
      = TagKind.hashComment.opening ++ (body ++ TagKind.hashComment.closing ++ rest) := by
    simp [Tag.content, Tag.inner, Tag.kind]
  rw [hopening, TagKind.read?, after?_append, Option.bind_some, TagKind.readInner?,
    Option.isSome_map]
  exact isSome_someUpTo? hne hline

theorem exists_isRemark_of_read? {rest : Text} {t : Tag}
    (h : TagKind.hashComment.read? text = some (t, rest)) : t.content.IsRemark := by
  obtain ⟨inner, -, hinner⟩ := Option.bind_eq_some_iff.mp h
  obtain ⟨⟨body, _⟩, hbody, heq⟩ := Option.map_eq_some_iff.mp hinner
  obtain ⟨rfl, rfl⟩ := Prod.mk.inj heq
  exact ⟨body, ne_nil_of_someUpTo? hbody, newline_not_mem_of_someUpTo? hbody, rfl⟩

/-- No comment on one line is found if and only if none stands anywhere in the text. -/
theorem find_hashComment_eq_none :
    Tag.find [.hashComment] text = none
      ↔ ∀ remark : Text, remark.IsRemark → ¬remark <:+: text := by
  constructor
  · rintro hnone remark hremark ⟨passed, rest, rfl⟩
    have hsome := isSome_read?_of_isRemark hremark rest
    obtain ⟨body, -, -, hcontent⟩ := hremark
    obtain ⟨tail, htail⟩ := (Tag.hashComment body).exists_content_eq_cons
    have hskips := Tag.find_eq_none.mp hnone
    rw [List.append_assoc, Tag.skips_append, hcontent, htail, List.cons_append] at hskips
    have hhere := hskips.2.1
    rw [List.append_nil, List.findSome?_singleton] at hhere
    rw [hcontent, htail, List.cons_append, hhere] at hsome
    cases hsome
  · intro h
    refine Option.eq_none_iff_forall_ne_some.mpr fun found hfound => ?_
    obtain ⟨-, hread⟩ := Tag.skips_of_find hfound
    rw [List.findSome?_singleton] at hread
    refine h found.tag.content (exists_isRemark_of_read? hread) ?_
    exact ⟨found.gap, found.rest, (Tag.eq_of_find hfound).symm⟩

/-! ## Seams -/

/-- The end of one text and the beginning of another make up a comment on one line. -/
def JoinsRemark (before after : Text) : Prop :=
  ∃ start stop : Text, start <:+ before ∧ stop <+: after ∧ (start ++ stop).IsRemark

/-- Taking out a tag from a text without comments on one line brings none about, if none is made
up across the seam. -/
theorem find_takeOut (htext : text = found.gap ++ found.tag.content ++ found.rest)
    (hnone : Tag.find [.hashComment] text = none)
    (hjoins : ¬ JoinsRemark (o.keepBefore found.gap) (o.keepAfter found.rest)) :
    Tag.find [.hashComment] (o.keepBefore found.gap ++ o.keepAfter found.rest) = none := by
  obtain ⟨indent, hindent⟩ := o.keepBefore_prefix found.gap
  obtain ⟨newline, hnewline, -⟩ := o.exists_eq_append_keepAfter found.rest
  have hbefore : o.keepBefore found.gap <:+: text := by
    refine ⟨[], indent ++ (found.tag.content ++ found.rest), ?_⟩
    rw [List.nil_append, ← List.append_assoc, hindent, htext, List.append_assoc]
  have hafter : o.keepAfter found.rest <:+: text := by
    refine ⟨found.gap ++ found.tag.content ++ newline, [], ?_⟩
    rw [htext, List.append_nil, List.append_assoc, ← hnewline]
  rw [find_hashComment_eq_none] at hnone ⊢
  intro remark hremark hinfix
  -- a comment stands on one side of the seam or goes across it
  rcases List.infix_append_iff.mp hinfix with hin | hin | ⟨start, stop, rfl, hstart, hstop⟩
  · exact hnone remark hremark (hin.trans hbefore)
  · exact hnone remark hremark (hin.trans hafter)
  · exact hjoins ⟨start, stop, hstart, hstop, hremark⟩

/-- Nothing joins to a comment on one line where sections are taken out of the text, one after the
other. -/
inductive ClosesUp (o : Options) : Text → Prop
  | done {text : Text} (hnone : Tag.find [.blockComment] text = none) : ClosesUp o text
  | takeOut {text : Text} {found : Tag.Found} (hfound : Tag.find [.blockComment] text = some found)
    (hjoins : ¬ JoinsRemark (o.keepBefore found.gap) (o.keepAfter found.rest))
    (hlater : ClosesUp o (o.keepBefore found.gap ++ o.keepAfter found.rest)) : ClosesUp o text

/-- The pass for sections then brings no comment of the other kind about. -/
theorem ClosesUp.find_hashComment (h : text.ClosesUp o)
    (hnone : Tag.find [.hashComment] text = none) :
    Tag.find [.hashComment] (text.stripTags .blockComment o) = none := by
  induction h with
  | done hsections => rwa [stripTags_of_find hsections]
  | takeOut hfound hjoins _ ih =>
    rw [stripTags_of_find_eq_some hfound]
    exact ih (find_takeOut (Tag.eq_of_find hfound) hnone hjoins)

/-- Where no number sign is left nothing can join to a comment. -/
theorem closesUp_of_not_mem (h : '#' ∉ text) : text.ClosesUp o := by
  fun_induction stripTags .blockComment o text with
  | case1 text hnone => exact .done hnone
  | case2 text found hfound _ ih =>
    obtain ⟨indent, hindent⟩ := o.keepBefore_prefix found.gap
    obtain ⟨newline, hnewline, -⟩ := o.exists_eq_append_keepAfter found.rest
    rw [Tag.eq_of_find hfound, hnewline, ← hindent] at h
    simp only [List.mem_append, not_or] at h
    obtain ⟨⟨⟨hbefore, -⟩, -⟩, -, hafter⟩ := h
    refine .takeOut hfound ?_ (ih ?_)
    · rintro ⟨start, stop, hstart, hstop, body, -, -, hremark⟩
      have hsign : '#' ∈ start ++ stop := by
        rw [hremark]
        exact List.mem_append_left _ (by decide : '#' ∈ TagKind.hashComment.opening)
      rcases List.mem_append.mp hsign with hmem | hmem
      · exact hbefore (hstart.subset hmem)
      · exact hafter (hstop.subset hmem)
    · rw [List.mem_append, not_or]
      exact ⟨hbefore, hafter⟩

/-! ## Both passes -/

/-- Stripping again changes nothing if and only if no comment on one line is left. -/
theorem stripComments_eq_self_iff (h : Tag.find [.blockComment] text = none) (o : Options) :
    text.stripComments o = text ↔ Tag.find [.hashComment] text = none := by
  constructor
  · intro heq
    refine Option.eq_none_iff_forall_ne_some.mpr fun found hfound => ?_
    have hlt := length_stripTags_lt hfound o
    have hle := length_stripTags_le .blockComment o (text.stripTags .hashComment o)
    rw [← stripComments, heq] at hle
    exact absurd hle (Nat.not_le.mpr hlt)
  · intro hnone
    exact CommentFree.stripComments ⟨hnone, h⟩ o

/-- **What stripping leaves.** No comment section is left in any text, whatever the options are.
Stripping again, with the same options or others, changes nothing if and only if no comment on one
line is left either. And none is left if nothing joins to one where sections are taken out. -/
theorem stripComments_complete (o : Options) (text : Text) :
    Tag.find [.blockComment] (text.stripComments o) = none
      ∧ (∀ o' : Options, (text.stripComments o).stripComments o' = text.stripComments o
        ↔ Tag.find [.hashComment] (text.stripComments o) = none)
      ∧ ((text.stripTags .hashComment o).ClosesUp o → (text.stripComments o).CommentFree) := by
  have hsections : Tag.find [.blockComment] (text.stripComments o) = none :=
    find_stripTags .blockComment o _
  refine ⟨hsections, stripComments_eq_self_iff hsections, ?_⟩
  intro hcloses
  exact ⟨hcloses.find_hashComment (find_stripTags .hashComment o text), hsections⟩

/-- A comment on one line, and a section that stands behind an indent. -/
theorem stripComments_complete_section :
    let text : Text := ("a\x7b# b #\x7dc\n  \x7b% comment 'd' %\x7d\n\x7b\x7b e \x7d\x7d\n"
      ++ "\x7b% endcomment %\x7d\nf").toList
    text.stripComments {} = "ac\nf".toList
      ∧ (text.stripTags .hashComment {}).ClosesUp {} ∧ (text.stripComments {}).CommentFree := by
  intro text
  have hcloses : (text.stripTags .hashComment {}).ClosesUp {} :=
    closesUp_of_not_mem (by decide +kernel)
  exact ⟨by decide +kernel, hcloses, (stripComments_complete {} text).2.2 hcloses⟩

/-- The brace before a section makes up a comment with what follows the section. -/
theorem stripComments_leaves_comment :
    let text : Text := "\x7b\x7b% comment %\x7dx\x7b% endcomment %\x7d# a #\x7d".toList
    text.stripComments {} = "\x7b# a #\x7d".toList
      ∧ Tag.find [.hashComment] (text.stripComments {}) ≠ none
      ∧ (text.stripComments {}).stripComments {} = [] := by
  decide +kernel

end Text

end TemplateEngine
