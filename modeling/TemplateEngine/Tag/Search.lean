import TemplateEngine.Tag.Reading

/-!
# Searching for tags

`Tag.find` searches a text from the left, and `Tag.split` cuts it at all tags. Nothing is
lost on the way: the text is what was passed over, the tag and the rest (`Tag.eq_of_find`,
`Tag.interleave_split`). `Tag.findEndBlock` finds the tag that ends a block.
-/

namespace TemplateEngine

namespace Tag

/-- A tag found in a text. -/
structure Found where
  /-- what was passed over before the tag -/
  gap : Text
  tag : Tag
  /-- what follows the tag -/
  rest : Text

/-- The first tag of any of the kinds. Of two tags that begin at the same place, the one
whose kind is listed first counts. -/
def find (kinds : List TagKind) : Text → Option Found
  | [] => none
  | c :: text =>
    match kinds.findSome? (·.read? (c :: text)) with
    | some (tag, rest) => some ⟨[], tag, rest⟩
    | none => (find kinds text).map fun found => { found with gap := c :: found.gap }

/-- A search loses nothing. -/
theorem eq_of_find {kinds : List TagKind} {text : Text} {found : Found}
    (h : find kinds text = some found) :
    text = found.gap ++ found.tag.content ++ found.rest := by
  induction text generalizing found with
  | nil => simp [find] at h
  | cons c text ih =>
    simp only [find] at h
    split at h
    · next t r hr =>
      obtain ⟨_, _, _, _, hk, _⟩ := List.findSome?_eq_some_iff.1 hr
      simp only [Option.some.injEq] at h
      subst h
      simpa using TagKind.eq_of_read? hk
    · simp only [Option.map_eq_some_iff] at h
      obtain ⟨f, hf, rfl⟩ := h
      simp [ih hf]

/-- What follows a tag is shorter than the text searched. -/
theorem length_lt_of_find {kinds : List TagKind} {text : Text} {found : Found}
    (h : find kinds text = some found) : found.rest.length < text.length := by
  have := List.length_pos_iff.2 found.tag.content_ne_nil
  have := congrArg List.length (eq_of_find h)
  simp only [List.length_append] at this
  omega

/-- A text cut at all its tags of the kinds: each tag with what was passed over since the one
before, and what follows the last tag. -/
def split (kinds : List TagKind) (text : Text) : List Found × Text :=
  match h : find kinds text with
  | none => ([], text)
  | some found =>
    have : found.rest.length < text.length := length_lt_of_find h
    (found :: (split kinds found.rest).1, (split kinds found.rest).2)
termination_by text.length

theorem split_of_find_eq_none {kinds : List TagKind} {text : Text} (h : find kinds text = none) :
    split kinds text = ([], text) := by
  rw [split]
  split
  · rfl
  · next found hfound => cases h.symm.trans hfound

theorem split_of_find {kinds : List TagKind} {text : Text} {found : Found}
    (h : find kinds text = some found) :
    split kinds text = (found :: (split kinds found.rest).1, (split kinds found.rest).2) := by
  rw [split]
  split
  · next hnone => cases hnone.symm.trans h
  · next first hfirst =>
    obtain rfl := Option.some.inj (hfirst.symm.trans h)
    rfl

/-- The texts between the tags of a text that was cut: one before each tag, and the last. -/
def gaps (cut : List Found × Text) : List Text := cut.1.map (·.gap) ++ [cut.2]

/-- A text is its gaps with its tags in between. -/
theorem interleave_split (kinds : List TagKind) (text : Text) :
    Text.interleave (gaps (split kinds text)) ((split kinds text).1.map (·.tag.content))
      = text := by
  fun_induction split kinds text with
  | case1 => simp [gaps, Text.interleave]
  | case2 text found h _ ih =>
    rw [gaps] at ih ⊢
    rw [List.map_cons, List.map_cons, List.cons_append, Text.interleave, ih, ← eq_of_find h]

/-- A tag found behind another one, with everything before it passed over. -/
def Found.behind (earlier later : Found) : Found :=
  { later with gap := earlier.gap ++ earlier.tag.content ++ later.gap }

/-- The tag that ends the block `name`, given what follows the header of the block. A named
end must have the name of the block. An end without a name counts only while
`bareCounts`: no other header may stand before it, since it would end that block. -/
def findEndBlock (name : Text) (bareCounts : Bool) (text : Text) : Option Found :=
  match h : find [.block, .endBlock] text with
  | none => none
  | some found =>
    have : found.rest.length < text.length := length_lt_of_find h
    match found.tag with
    | .endBlock none =>
      if bareCounts then some found
      else (findEndBlock name false found.rest).map found.behind
    | .endBlock (some closing) =>
      if closing = name then some found
      else (findEndBlock name bareCounts found.rest).map found.behind
    | _ => (findEndBlock name false found.rest).map found.behind
termination_by text.length

theorem Found.eq_behind {text : Text} {earlier later : Found}
    (he : text = earlier.gap ++ earlier.tag.content ++ earlier.rest)
    (hl : earlier.rest = later.gap ++ later.tag.content ++ later.rest) :
    text = (earlier.behind later).gap ++ (earlier.behind later).tag.content
      ++ (earlier.behind later).rest := by
  rw [he, hl]
  simp [behind]

/-- The search for the end of a block loses nothing. -/
theorem eq_of_findEndBlock {name : Text} {bareCounts : Bool} {text : Text} {found : Found}
    (h : findEndBlock name bareCounts text = some found) :
    text = found.gap ++ found.tag.content ++ found.rest := by
  fun_induction findEndBlock name bareCounts text generalizing found with
  | case1 => simp at h
  | case2 _ _ hf => exact Option.some.inj h ▸ eq_of_find hf
  | case3 _ _ _ hf _ _ _ ih =>
    obtain ⟨_, hl, rfl⟩ := Option.map_eq_some_iff.1 h
    exact Found.eq_behind (eq_of_find hf) (ih hl)
  | case4 _ _ _ hf => exact Option.some.inj h ▸ eq_of_find hf
  | case5 _ _ _ hf _ _ _ _ ih =>
    obtain ⟨_, hl, rfl⟩ := Option.map_eq_some_iff.1 h
    exact Found.eq_behind (eq_of_find hf) (ih hl)
  | case6 _ _ _ hf _ _ _ ih =>
    obtain ⟨_, hl, rfl⟩ := Option.map_eq_some_iff.1 h
    exact Found.eq_behind (eq_of_find hf) (ih hl)

/-- What follows the end of a block is shorter than the text searched. -/
theorem length_lt_of_findEndBlock {name : Text} {bareCounts : Bool} {text : Text}
    {found : Found} (h : findEndBlock name bareCounts text = some found) :
    found.rest.length < text.length := by
  have := List.length_pos_iff.2 found.tag.content_ne_nil
  have := congrArg List.length (eq_of_findEndBlock h)
  simp only [List.length_append] at this
  omega

end Tag

end TemplateEngine
