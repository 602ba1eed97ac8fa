import TemplateEngine.Tag.Search

/-!
# Blocks

A text cut once and for all into its blocks and what stands between them (`Cut.of`), where
composition replaces or collects them one after the other. Cutting loses nothing: the blocks
as they are written and the text between them are the text (`Cut.write_content`).

`Tag.ending?` says which tag ends a block: of all end tags behind the header, the first that
may end it.
-/

namespace TemplateEngine

/-! ## The end of a block -/

namespace Tag

/-- A tag that is found has one of the kinds asked for. -/
theorem kind_mem_of_find {kinds : List TagKind} {text : Text} {found : Found}
    (h : find kinds text = some found) : found.tag.kind ∈ kinds := by
  induction text generalizing found with
  | nil => cases h
  | cons c text ih =>
    rw [find] at h
    split at h
    · next tag rest hread =>
      obtain rfl := Option.some.inj h
      obtain ⟨_, kind, _, hkinds, hkind, _⟩ := List.findSome?_eq_some_iff.mp hread
      rw [TagKind.kind_of_read? hkind, hkinds]
      exact List.mem_append_right _ (List.mem_cons_self ..)
    · obtain ⟨later, hlater, rfl⟩ := Option.map_eq_some_iff.mp h
      exact @ih later hlater

/-- The header of a block gives its name. -/
theorem eq_block_of_find {text : Text} {header : Found} (h : find [.block] text = some header) :
    header.tag = .block (header.tag.argument?.getD []) := by
  have hkind := List.mem_singleton.mp (kind_mem_of_find h)
  cases htag : header.tag with
  | block name => rfl
  | _ => rw [htag] at hkind; cases hkind

/-- A tag found behind a piece of text that was passed over before. -/
def Found.past (passed : Text) (found : Found) : Found :=
  { found with gap := passed ++ found.gap }

/-- All tags of the kinds, each with everything passed over that stands before it. -/
def all (kinds : List TagKind) (text : Text) : List Found :=
  match h : find kinds text with
  | none => []
  | some found =>
    have : found.rest.length < text.length := length_lt_of_find h
    found :: (all kinds found.rest).map (Found.past (found.gap ++ found.tag.content))
termination_by text.length

/-- Each of the tags stands in the text. -/
theorem eq_of_mem_all {kinds : List TagKind} {text : Text} {found : Found}
    (h : found ∈ all kinds text) : text = found.gap ++ found.tag.content ++ found.rest := by
  fun_induction all kinds text generalizing found with
  | case1 => cases h
  | case2 text first hf _ ih =>
    rcases List.mem_cons.mp h with rfl | h
    · exact eq_of_find hf
    · obtain ⟨later, hlater, rfl⟩ := List.mem_map.mp h
      rw [eq_of_find hf, ih hlater]
      simp only [Found.past, List.append_assoc]

/-- Whether an end tag found behind the header of a block may end it: it gives the name of the
block, or it gives none, and there is no other header before it. -/
def Found.Ends (stop : Found) (name : Text) : Prop :=
  stop.tag = .endBlock (some name)
    ∨ stop.tag = .endBlock none ∧ (find [.block] stop.gap).isNone

instance (stop : Found) (name : Text) : Decidable (stop.Ends name) :=
  inferInstanceAs (Decidable (_ ∨ _ ∧ _))

/-- The end of the block `name`, given what follows its header. -/
def ending? (name text : Text) : Option Found :=
  (all [.endBlock] text).find? (·.Ends name)

theorem eq_of_ending? {name text : Text} {stop : Found} (h : ending? name text = some stop) :
    text = stop.gap ++ stop.tag.content ++ stop.rest :=
  eq_of_mem_all (List.mem_of_find?_eq_some h)

/-- What follows the end of a block is shorter than the text searched. -/
theorem length_lt_of_ending? {name text : Text} {stop : Found}
    (h : ending? name text = some stop) : stop.rest.length < text.length := by
  have := List.length_pos_iff.2 stop.tag.content_ne_nil
  have := congrArg List.length (eq_of_ending? h)
  simp only [List.length_append] at this
  omega

end Tag

/-! ## Blocks -/

/-- A block of a text. -/
structure Block where
  /-- what stands before the header, since the block before -/
  gap : Text
  name : Text
  /-- the body and the end tag; a block can also be a header alone -/
  closed : Option (Text × Tag)

namespace Block

/-- The body, empty if there is no end tag. -/
def body (b : Block) : Text :=
  match b.closed with
  | none => []
  | some (body, _) => body

/-- The block as it is written, from its header through its end tag. -/
def content (b : Block) : Text :=
  (Tag.block b.name).content ++
    match b.closed with
    | none => []
    | some (body, stop) => body ++ stop.content

end Block

/-- A text cut at its blocks. -/
structure Cut where
  blocks : List Block
  /-- what follows the last block -/
  last : Text

namespace Cut

/-- The cut of a text that begins with one more block. -/
def behind (b : Block) (cut : Cut) : Cut := ⟨b :: cut.blocks, cut.last⟩

/-- The text with `fill` in place of each block and all else unchanged. -/
def write (fill : Block → Text) (cut : Cut) : Text :=
  cut.blocks.flatMap (fun b => b.gap ++ fill b) ++ cut.last

@[simp] theorem write_behind (fill : Block → Text) (b : Block) (cut : Cut) :
    (cut.behind b).write fill = b.gap ++ fill b ++ cut.write fill := by
  simp [write, behind]

/-- The cut of a text. A block goes from its header through its end, and the next block is
looked for behind it. -/
def of (text : Text) : Cut :=
  match hh : Tag.find [.block] text with
  | none => ⟨[], text⟩
  | some header =>
    have : header.rest.length < text.length := Tag.length_lt_of_find hh
    let name := header.tag.argument?.getD []
    match hs : Tag.ending? name header.rest with
    | none => (of header.rest).behind ⟨header.gap, name, none⟩
    | some stop =>
      have : stop.rest.length < header.rest.length := Tag.length_lt_of_ending? hs
      (of stop.rest).behind ⟨header.gap, name, some (stop.gap, stop.tag)⟩
termination_by text.length

/-- A text without a header has no blocks. -/
theorem of_eq_of_find_eq_none {text : Text} (h : Tag.find [.block] text = none) :
    of text = ⟨[], text⟩ := by
  rw [of]
  split
  · rfl
  · next header hh => cases h.symm.trans hh

/-- A text with a header begins with the block of that header. -/
theorem of_eq_of_find {text name : Text} {header : Tag.Found}
    (hh : Tag.find [.block] text = some header) (hname : name = header.tag.argument?.getD []) :
    of text = match Tag.ending? name header.rest with
      | none => (of header.rest).behind ⟨header.gap, name, none⟩
      | some stop => (of stop.rest).behind ⟨header.gap, name, some (stop.gap, stop.tag)⟩ := by
  rw [of]
  split
  · next hnone => cases hnone.symm.trans hh
  · next first hfirst =>
    obtain rfl := Option.some.inj (hfirst.symm.trans hh)
    dsimp only
    subst hname
    split <;> next hs => rw [hs]

/-- Cutting a text at its blocks loses nothing. -/
theorem write_content (text : Text) : (of text).write Block.content = text := by
  fun_induction of text with
  | case1 => simp [write]
  | case2 text header hh _ name _ ih =>
    have hname : header.tag = .block name := Tag.eq_block_of_find hh
    have htext := Tag.eq_of_find hh
    rw [hname] at htext
    simpa [Block.content, ih] using htext.symm
  | case3 text header hh _ name stop hs _ ih =>
    have hname : header.tag = .block name := Tag.eq_block_of_find hh
    have htext := Tag.eq_of_find hh
    rw [hname, Tag.eq_of_ending? hs] at htext
    simpa [Block.content, ih] using htext.symm

end Cut

end TemplateEngine
