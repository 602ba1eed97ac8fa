import Mathlib.Data.List.Find
import TemplateEngine.Block

/-!
# What a search passes over

`Tag.Skips` says that no tag of some kinds begins in a piece of text, which is what a search
has found out about everything before its result (`Tag.skips_of_find`). The other way round,
a search goes past such a piece as if it were not there (`Tag.find_append`), and all that is
known about searches in parts of a text comes from these two.

Whether a tag begins at a place depends in general on what follows. But a header is read from
its own characters only (`TagKind.read?_block`), and behind the first character of a header or
an end tag there is no brace (`TagKind.exists_tail`), so none of them begins inside another.
This makes it possible to search for headers and for end tags separately: the end of a block
is the first of all end tags that may end it (`Tag.findEndBlock_eq_ending?`).
-/

namespace TemplateEngine

namespace Text

/-- A name as tags have it: it is made of word characters. -/
def IsWord (name : Text) : Prop := name ≠ [] ∧ ∀ c ∈ name, Character.isWord c

theorem isWord_of_word? {text word rest : Text} (h : word? text = some (word, rest)) :
    word.IsWord := by
  rw [word?] at h
  split at h
  · cases h
  · next hne =>
    obtain ⟨rfl, -⟩ := Prod.mk.inj (Option.some.inj h)
    exact ⟨hne, List.all_eq_true.mp List.all_takeWhile⟩

/-- A word is read up to the first character that belongs to no word. -/
theorem word?_append {word : Text} (h : word.IsWord) {c : Char} (hc : Character.isWord c = false)
    (rest : Text) : word? (word ++ c :: rest) = some (word, c :: rest) := by
  have htake : (word ++ c :: rest).takeWhile Character.isWord = word := by
    rw [List.takeWhile_append_of_pos h.2, List.takeWhile_cons_of_neg (by simp [hc]),
      List.append_nil]
  have hdrop : (word ++ c :: rest).dropWhile Character.isWord = c :: rest := by
    rw [List.dropWhile_append_of_pos h.2, List.dropWhile_cons_of_neg (by simp [hc])]
  rw [word?, htake, hdrop, if_neg h.1]

theorem IsWord.not_mem {word : Text} (h : word.IsWord) {c : Char}
    (hc : Character.isWord c = false) : c ∉ word := by
  intro hmem
  have := h.2 c hmem
  rw [hc] at this
  cases this

end Text

namespace TagKind

theorem opening_eq_cons (kind : TagKind) : kind.opening = '\x7b' :: kind.opening.tail := by
  cases kind <;> decide

/-- Every tag begins with a brace. -/
theorem read?_cons_of_ne {c : Char} (hc : c ≠ '\x7b') (kind : TagKind) (text : Text) :
    kind.read? (c :: text) = none := by
  rw [read?, opening_eq_cons, Text.after?, if_neg hc]
  rfl

/-- Neither a header nor an end tag is read where the other one stands. -/
theorem read?_block_endBlock (name : Option Text) (rest : Text) :
    block.read? ((Tag.endBlock name).content ++ rest) = none := by
  rfl

theorem read?_endBlock_block (name rest : Text) :
    endBlock.read? ((Tag.block name).content ++ rest) = none := by
  rfl

/-- A header is read from its own characters. -/
theorem exists_of_read?_block {text rest : Text} {t : Tag} (h : block.read? text = some (t, rest)) :
    ∃ name : Text, name.IsWord ∧ t = .block name := by
  obtain ⟨_, -, hinner⟩ := Option.bind_eq_some_iff.mp h
  obtain ⟨⟨name, _⟩, hword, hrest⟩ := Option.bind_eq_some_iff.mp hinner
  obtain ⟨_, -, hpair⟩ := Option.map_eq_some_iff.mp hrest
  exact ⟨name, Text.isWord_of_word? hword, (Prod.mk.inj hpair).1.symm⟩

theorem read?_block {name : Text} (h : name.IsWord) (rest : Text) :
    block.read? ((Tag.block name).content ++ rest) = some (.block name, rest) := by
  have hopening : Text.after? ((Tag.block name).content ++ rest) block.opening
      = some (name ++ ' ' :: ("%\x7d".toList ++ rest)) := by
    rw [Text.after?_eq_some]
    simp [Tag.content, Tag.kind, Tag.inner, closing]
  have hclosing : Text.after? (' ' :: ("%\x7d".toList ++ rest)) block.closing = some rest :=
    Text.after?_append block.closing rest
  rw [read?, hopening, Option.bind_some, readInner?, Text.word?_append h (by decide),
    Option.bind_some]
  exact congrArg (Option.map _) hclosing

theorem exists_of_read?_endBlock {text rest : Text} {t : Tag}
    (h : endBlock.read? text = some (t, rest)) :
    ∃ name : Option Text, (∀ n ∈ name, n.IsWord) ∧ t = .endBlock name := by
  obtain ⟨inner, -, hinner⟩ := Option.bind_eq_some_iff.mp h
  rw [readInner?] at hinner
  split at hinner
  · obtain ⟨rfl, -⟩ := Prod.mk.inj (Option.some.inj hinner)
    exact ⟨none, fun n hn => (Option.not_mem_none n hn).elim, rfl⟩
  · obtain ⟨⟨name, _⟩, hword, hrest⟩ := Option.bind_eq_some_iff.mp hinner
    obtain ⟨_, -, hpair⟩ := Option.map_eq_some_iff.mp hrest
    refine ⟨some name, fun n hn => ?_, (Prod.mk.inj hpair).1.symm⟩
    obtain rfl := Option.mem_some.mp hn
    exact Text.isWord_of_word? hword

/-- No brace stands in a header or an end tag behind its first character. -/
theorem exists_tail {kind : TagKind} (hkind : kind = block ∨ kind = endBlock)
    {text rest : Text} {t : Tag} (h : kind.read? text = some (t, rest)) :
    ∃ tail, t.content = '\x7b' :: tail ∧ '\x7b' ∉ tail := by
  have hclosing : '\x7b' ∉ " %\x7d".toList := by decide
  rcases hkind with rfl | rfl
  · obtain ⟨name, hname, rfl⟩ := exists_of_read?_block h
    refine ⟨"% block ".toList ++ (name ++ " %\x7d".toList), rfl, ?_⟩
    have := hname.not_mem (c := '\x7b') (by decide)
    simp only [List.mem_append, not_or]
    exact ⟨by decide, this, hclosing⟩
  · obtain ⟨name, hname, rfl⟩ := exists_of_read?_endBlock h
    cases name with
    | none => exact ⟨"% endblock %\x7d".toList, rfl, by decide⟩
    | some name =>
      refine ⟨"% endblock ".toList ++ (name ++ " %\x7d".toList), rfl, ?_⟩
      have := (hname name rfl).not_mem (c := '\x7b') (by decide)
      simp only [List.mem_append, not_or]
      exact ⟨by decide, this, hclosing⟩

end TagKind

namespace Tag

theorem exists_content_eq_cons (t : Tag) : ∃ tail, t.content = '\x7b' :: tail :=
  ⟨t.kind.opening.tail ++ t.inner, by rw [content, TagKind.opening_eq_cons]; rfl⟩

/-! ## Passing over -/

/-- No tag of the kinds begins in `passed`, if `rest` follows it. -/
def Skips (kinds : List TagKind) : (passed rest : Text) → Prop
  | [], _ => True
  | c :: passed, rest =>
    kinds.findSome? (·.read? (c :: passed ++ rest)) = none ∧ Skips kinds passed rest

variable {kinds : List TagKind}

theorem skips_append {passed more rest : Text} :
    Skips kinds (passed ++ more) rest
      ↔ Skips kinds passed (more ++ rest) ∧ Skips kinds more rest := by
  induction passed with
  | nil => simp [Skips]
  | cons c passed ih =>
    simp only [List.cons_append, Skips, ih, List.append_assoc, and_assoc]

/-- A text without braces holds no tag. -/
theorem skips_of_not_mem {passed : Text} (h : '\x7b' ∉ passed) (rest : Text) :
    Skips kinds passed rest := by
  induction passed with
  | nil => trivial
  | cons c passed ih =>
    obtain ⟨hc, hpassed⟩ := not_or.mp (mt List.mem_cons.mpr h)
    refine ⟨List.findSome?_eq_none_iff.mpr fun kind _ => ?_, ih hpassed⟩
    exact TagKind.read?_cons_of_ne (Ne.symm hc) kind _

theorem Skips.mono {fewer : List TagKind} {passed rest : Text} (hle : ∀ kind ∈ fewer, kind ∈ kinds)
    (h : Skips kinds passed rest) : Skips fewer passed rest := by
  induction passed with
  | nil => trivial
  | cons c passed ih =>
    obtain ⟨hhere, hpassed⟩ := h
    refine ⟨List.findSome?_eq_none_iff.mpr fun kind hkind => ?_, ih hpassed⟩
    exact List.findSome?_eq_none_iff.mp hhere kind (hle kind hkind)

/-- A search goes past what holds no tag. -/
theorem find_append {passed rest : Text} (h : Skips kinds passed rest) :
    find kinds (passed ++ rest) = (find kinds rest).map (Found.past passed) := by
  induction passed with
  | nil => cases hf : find kinds rest <;> simp [hf, Found.past]
  | cons c passed ih =>
    obtain ⟨hhere, hpassed⟩ := h
    rw [List.cons_append, find, ← List.cons_append, hhere, ih hpassed]
    cases find kinds rest <;> rfl

/-- What a search has found out: no tag begins in what it passed over, and its result is
the tag that is read there. -/
theorem skips_of_find {text : Text} {found : Found} (h : find kinds text = some found) :
    Skips kinds found.gap (found.tag.content ++ found.rest)
      ∧ kinds.findSome? (·.read? (found.tag.content ++ found.rest))
        = some (found.tag, found.rest) := by
  induction text generalizing found with
  | nil => cases h
  | cons c text ih =>
    have htext := eq_of_find h
    rw [find] at h
    split at h
    · next tag rest hread =>
      obtain rfl := Option.some.inj h
      rw [List.nil_append] at htext
      exact ⟨trivial, htext ▸ hread⟩
    · next hread =>
      obtain ⟨later, hlater, rfl⟩ := Option.map_eq_some_iff.mp h
      obtain ⟨hskips, hfound⟩ := @ih later hlater
      refine ⟨⟨?_, hskips⟩, hfound⟩
      simpa only [List.cons_append, List.append_assoc, htext] using hread

/-- A tag that is read at the front of a text is found there. -/
theorem find_of_findSome? {text rest : Text} {t : Tag}
    (h : kinds.findSome? (·.read? text) = some (t, rest)) :
    find kinds text = some ⟨[], t, rest⟩ := by
  cases text with
  | nil =>
    obtain ⟨kind, -, hread⟩ := List.exists_of_findSome?_eq_some h
    have hempty := TagKind.eq_of_read? hread
    exact absurd (List.append_eq_nil_iff.mp hempty.symm).1 t.content_ne_nil
  | cons c text => rw [find, h]

theorem find_eq_none {text : Text} : find kinds text = none ↔ Skips kinds text [] := by
  constructor
  · intro h
    induction text with
    | nil => trivial
    | cons c text ih =>
      rw [find] at h
      split at h
      · cases h
      · next hread =>
        rw [← List.append_nil (c :: text)] at hread
        exact ⟨hread, ih (Option.map_eq_none_iff.mp h)⟩
  · intro h
    have := find_append h
    rwa [List.append_nil] at this

theorem all_of_find {text : Text} {found : Found} (h : find kinds text = some found) :
    all kinds text =
      found :: (all kinds found.rest).map (Found.past (found.gap ++ found.tag.content)) := by
  rw [all]
  split
  · next hnone =>
    rw [h] at hnone
    cases hnone
  · next first hfirst =>
    rw [h] at hfirst
    rw [Option.some.inj hfirst]

theorem all_of_find_eq_none {text : Text} (h : find kinds text = none) : all kinds text = [] := by
  rw [all]
  split
  · rfl
  · next first hfirst =>
    rw [h] at hfirst
    cases hfirst

theorem Found.past_past (before passed : Text) (found : Found) :
    (found.past passed).past before = found.past (before ++ passed) := by
  simp [past]

/-- So does a search for all tags. -/
theorem all_append {passed rest : Text} (h : Skips kinds passed rest) :
    all kinds (passed ++ rest) = (all kinds rest).map (Found.past passed) := by
  have hfind := find_append h
  cases hrest : find kinds rest with
  | none =>
    rw [hrest] at hfind
    rw [all_of_find_eq_none hrest, all_of_find_eq_none hfind]
    rfl
  | some found =>
    rw [hrest] at hfind
    rw [all_of_find hrest, all_of_find hfind, List.map_cons, List.map_map]
    refine congrArg (found.past passed :: ·) (List.map_congr_left fun later _ => ?_)
    rw [Function.comp_apply, Found.past_past, ← List.append_assoc]
    rfl

/-! ## Headers and end tags -/

/-- What is passed over does not hold a header either when less follows. -/
theorem Skips.shorten {passed rest more : Text} (h : Skips [.block] passed (rest ++ more)) :
    Skips [.block] passed rest := by
  induction passed with
  | nil => trivial
  | cons c passed ih =>
    obtain ⟨hhere, hpassed⟩ := h
    refine ⟨List.findSome?_eq_none_iff.mpr fun kind hkind => ?_, ih hpassed⟩
    obtain rfl := List.mem_singleton.mp hkind
    refine Option.eq_none_iff_forall_ne_some.mpr fun ⟨t, after⟩ hread => ?_
    obtain ⟨name, hname, rfl⟩ := TagKind.exists_of_read?_block hread
    -- the header is read again from its own characters, whatever follows
    have hmore := TagKind.read?_block hname (after ++ more)
    rw [← List.append_assoc, ← TagKind.eq_of_read? hread, List.append_assoc] at hmore
    rw [List.findSome?_singleton, hmore] at hhere
    cases hhere

/-- A search for other tags goes past a header or an end tag. -/
theorem skips_content {kind : TagKind} (hkind : kind = .block ∨ kind = .endBlock)
    {text rest : Text} {t : Tag} (h : kind.read? text = some (t, rest))
    (hother : kinds.findSome? (·.read? (t.content ++ rest)) = none) :
    Skips kinds t.content rest := by
  obtain ⟨tail, hcontent, htail⟩ := TagKind.exists_tail hkind h
  rw [hcontent] at hother ⊢
  exact ⟨hother, skips_of_not_mem htail rest⟩

/-- A header cannot be passed over. -/
theorem not_skips_block {name : Text} (h : name.IsWord) (passed rest : Text) :
    ¬ Skips [.block] (passed ++ (Tag.block name).content) rest := by
  intro hskips
  have hnone : [TagKind.block].findSome? (·.read? ((Tag.block name).content ++ rest)) = none :=
    (skips_append.mp hskips).2.1
  rw [List.findSome?_singleton, TagKind.read?_block h] at hnone
  cases hnone

/-- Whether an end tag may end a block does not depend on what was passed over before, if there
is no header in it. -/
theorem ends_past {passed : Text} {stop : Found} (h : Skips [.block] passed stop.gap)
    (name : Text) : (stop.past passed).Ends name ↔ stop.Ends name := by
  have hgap : (find [.block] (stop.past passed).gap).isNone = (find [.block] stop.gap).isNone := by
    rw [show (stop.past passed).gap = passed ++ stop.gap from rfl, find_append h]
    cases find [.block] stop.gap <;> rfl
  rw [Found.Ends, Found.Ends, hgap]
  exact Iff.rfl

/-- Whether an end tag is accepted as the end of a block, with or without ends that give no
name. -/
def Found.accepted (name : Text) (bareCounts : Bool) (stop : Found) : Bool :=
  stop.Ends name && (bareCounts || stop.tag ≠ .endBlock none)

theorem Found.accepted_false (name : Text) (stop : Found) :
    stop.accepted name false = decide (stop.tag = .endBlock (some name)) := by
  by_cases hbare : stop.tag = .endBlock none
  · simp [accepted, hbare]
  · simp [accepted, Ends, hbare]

theorem Found.accepted_past {passed : Text} {stop : Found} (h : Skips [.block] passed stop.gap)
    (name : Text) (bareCounts : Bool) :
    (stop.past passed).accepted name bareCounts = stop.accepted name bareCounts := by
  simp only [accepted, ends_past h]
  rfl

/-- Behind a header only end tags with a name are accepted. -/
theorem Found.accepted_past_header {header : Text} (h : header.IsWord) (passed : Text)
    (stop : Found) (name : Text) (bareCounts : Bool) :
    (stop.past (passed ++ (Tag.block header).content)).accepted name bareCounts
      = stop.accepted name false := by
  have hgap : find [.block] (passed ++ ((Tag.block header).content ++ stop.gap)) ≠ none := by
    intro hnone
    rw [← List.append_assoc] at hnone
    exact not_skips_block h _ _ (skips_append.mp (find_eq_none.mp hnone)).1
  rw [accepted_false]
  by_cases hnamed : stop.tag = .endBlock (some name)
  · simp [accepted, Ends, past, hnamed]
  · simp [accepted, Ends, past, hnamed, hgap]

/-- What is known when an end tag comes before the next header. -/
theorem find_endBlock_of_find {text : Text} {found : Found} {closing : Option Text}
    (h : find [.block, .endBlock] text = some found) (htag : found.tag = .endBlock closing) :
    find [.endBlock] text = some found
      ∧ Skips [.block] (found.gap ++ found.tag.content) found.rest := by
  obtain ⟨hskips, hread⟩ := skips_of_find h
  have hblock : TagKind.block.read? (found.tag.content ++ found.rest) = none := by
    rw [htag]
    exact TagKind.read?_block_endBlock closing found.rest
  rw [List.findSome?_cons, hblock, List.findSome?_singleton] at hread
  constructor
  · rw [eq_of_find h, List.append_assoc, find_append (hskips.mono (by simp)),
      find_of_findSome? (by rwa [List.findSome?_singleton])]
    simp [Found.past]
  · refine skips_append.mpr ⟨hskips.mono (by simp), skips_content (.inr rfl) hread ?_⟩
    rw [List.findSome?_singleton, hblock]

/-- What is known when a header comes before the next end tag. -/
theorem find_block_of_find {text : Text} {found : Found}
    (h : find [.block, .endBlock] text = some found)
    (htag : ∀ closing, found.tag ≠ .endBlock closing) :
    (∃ name : Text, name.IsWord ∧ found.tag = .block name)
      ∧ Skips [.endBlock] (found.gap ++ found.tag.content) found.rest := by
  obtain ⟨hskips, hread⟩ := skips_of_find h
  rw [List.findSome?_cons, List.findSome?_singleton] at hread
  cases hblock : TagKind.block.read? (found.tag.content ++ found.rest) with
  | none =>
    rw [hblock] at hread
    obtain ⟨closing, -, hclosing⟩ := TagKind.exists_of_read?_endBlock hread
    exact absurd hclosing (htag closing)
  | some pair =>
    rw [hblock] at hread
    obtain rfl := Option.some.inj hread
    obtain ⟨name, hname, hheader⟩ := TagKind.exists_of_read?_block hblock
    refine ⟨⟨name, hname, hheader⟩, skips_append.mpr ⟨hskips.mono (by simp), ?_⟩⟩
    refine skips_content (.inl rfl) hblock ?_
    rw [List.findSome?_singleton, hheader, TagKind.read?_endBlock_block]

/-- The search for an accepted end tag goes on behind a tag, where other ends may be accepted. -/
theorem find?_accepted_past {name passed rest : Text} {bareCounts bareCounts' : Bool}
    (h : ∀ later ∈ all [.endBlock] rest,
      Found.accepted name bareCounts (later.past passed) = Found.accepted name bareCounts' later) :
    ((all [.endBlock] rest).map (Found.past passed)).find? (Found.accepted name bareCounts)
      = ((all [.endBlock] rest).find? (Found.accepted name bareCounts')).map
        (Found.past passed) := by
  rw [List.find?_map]
  exact congrArg _ (List.find?_congr h)

theorem findEndBlock_eq_find? (name : Text) (bareCounts : Bool) (text : Text) :
    findEndBlock name bareCounts text
      = (all [.endBlock] text).find? (Found.accepted name bareCounts) := by
  fun_induction findEndBlock name bareCounts text with
  | case1 bareCounts text hnone =>
    have hends : find [.endBlock] text = none :=
      find_eq_none.mpr ((find_eq_none.mp hnone).mono (by simp))
    rw [all_of_find_eq_none hends]
    rfl
  | case2 text found hfound _ htag =>
    obtain ⟨hfind, hskips⟩ := find_endBlock_of_find hfound htag
    have hgap : find [.block] found.gap = none := by
      have hbefore : Skips [.block] found.gap ([] ++ _) := (skips_append.mp hskips).1
      exact find_eq_none.mpr hbefore.shorten
    rw [all_of_find hfind, List.find?_cons_of_pos]
    simp [Found.accepted, Found.Ends, htag, hgap]
  | case3 bareCounts text found hfound _ htag hbare ih =>
    obtain rfl := Bool.eq_false_iff.mpr hbare
    obtain ⟨hfind, -⟩ := find_endBlock_of_find hfound htag
    have hrejected : ¬ found.accepted name false := by simp [Found.accepted_false, htag]
    rw [all_of_find hfind, List.find?_cons_of_neg hrejected, ih]
    refine (find?_accepted_past fun later _ => ?_).symm
    rw [Found.accepted_false, Found.accepted_false]
    rfl
  | case4 bareCounts text found hfound _ htag =>
    obtain ⟨hfind, -⟩ := find_endBlock_of_find hfound htag
    rw [all_of_find hfind, List.find?_cons_of_pos]
    simp [Found.accepted, Found.Ends, htag]
  | case5 bareCounts text found hfound _ closing htag hne ih =>
    obtain ⟨hfind, hskips⟩ := find_endBlock_of_find hfound htag
    have hrejected : ¬ found.accepted name bareCounts := by
      simp [Found.accepted, Found.Ends, htag, hne]
    rw [all_of_find hfind, List.find?_cons_of_neg hrejected, ih]
    refine (find?_accepted_past fun later hlater => ?_).symm
    rw [eq_of_mem_all hlater, List.append_assoc] at hskips
    exact Found.accepted_past hskips.shorten name bareCounts
  | case6 bareCounts text found hfound _ hnone hsome ih =>
    have hheader : ∀ closing, found.tag ≠ .endBlock closing := by
      intro closing htag
      cases closing with
      | none => exact hnone htag
      | some closing => exact hsome closing htag
    obtain ⟨⟨header, hname, htag⟩, hskips⟩ := find_block_of_find hfound hheader
    have hall := all_append hskips
    rw [List.append_assoc, ← List.append_assoc, ← eq_of_find hfound] at hall
    rw [hall, ih]
    refine (find?_accepted_past fun later _ => ?_).symm
    rw [htag]
    exact Found.accepted_past_header hname found.gap later name bareCounts

/-- The end of a block is the first of all end tags that may end it. -/
theorem findEndBlock_eq_ending? (name text : Text) :
    findEndBlock name true text = ending? name text := by
  rw [findEndBlock_eq_find?, ending?]
  congr 1
  funext stop
  simp [Found.accepted]

/-- What is passed over does not hold a header either when a tag follows: no header reaches into
the tag. -/
theorem Skips.lengthen {passed : Text} (h : Skips [.block] passed []) (t : Tag) (rest : Text) :
    Skips [.block] passed (t.content ++ rest) := by
  induction passed with
  | nil => trivial
  | cons c passed ih =>
    obtain ⟨hhere, hpassed⟩ := h
    refine ⟨List.findSome?_eq_none_iff.mpr fun kind hkind => ?_, ih hpassed⟩
    obtain rfl := List.mem_singleton.mp hkind
    refine Option.eq_none_iff_forall_ne_some.mpr fun pair hread => ?_
    obtain ⟨header, after⟩ := pair
    obtain ⟨name, hname, rfl⟩ := TagKind.exists_of_read?_block hread
    have hfits (bs : Text) : c :: passed ≠ (Tag.block name).content ++ bs := by
      intro hpassed
      have hread' := TagKind.read?_block hname bs
      rw [← hpassed] at hread'
      rw [List.append_nil, List.findSome?_singleton, hread'] at hhere
      cases hhere
    rcases List.append_eq_append_iff.mp (TagKind.eq_of_read? hread) with
      ⟨as, hcontent, hrest⟩ | ⟨bs, hpassed, -⟩
    · cases as with
      | nil => exact hfits [] (by rw [hcontent, List.append_nil, List.append_nil])
      | cons d as =>
        -- the tag that follows would begin with a brace inside the header
        obtain ⟨tail, htail, hbrace⟩ := TagKind.exists_tail (.inl rfl) hread
        obtain ⟨inner, hinner⟩ := t.exists_content_eq_cons
        rw [hinner, List.cons_append, List.cons_append] at hrest
        obtain rfl := (List.cons.inj hrest).1
        rw [htail] at hcontent
        exact hbrace ((List.cons.inj hcontent).2 ▸ List.mem_append_right _ (List.mem_cons_self ..))
    · exact hfits bs hpassed

/-- No header stands in the body of a block if and only if the next one does not stand before the
end. -/
theorem find_gap_eq_none {text : Text} {stop : Found}
    (htext : text = stop.gap ++ stop.tag.content ++ stop.rest) :
    find [.block] stop.gap = none
      ↔ ∀ nested, find [.block] text = some nested → stop.gap.length ≤ nested.gap.length := by
  rw [List.append_assoc] at htext
  constructor
  · intro hgap nested hnested
    rw [htext, find_append ((find_eq_none.mp hgap).lengthen ..)] at hnested
    obtain ⟨later, -, rfl⟩ := Option.map_eq_some_iff.mp hnested
    simp [Found.past]
  · intro h
    suffices hskips : ∃ rest, Skips [.block] stop.gap ([] ++ rest) by
      obtain ⟨rest, hskips⟩ := hskips
      exact find_eq_none.mpr hskips.shorten
    cases hf : find [.block] text with
    | none =>
      have hskips := find_eq_none.mp hf
      rw [htext] at hskips
      exact ⟨_, (skips_append.mp hskips).1⟩
    | some nested =>
      have hstop : stop.gap <+: text := ⟨_, htext.symm⟩
      have hnested : nested.gap <+: text := ⟨_, by rw [eq_of_find hf, List.append_assoc]⟩
      obtain ⟨between, hbetween⟩ := List.prefix_of_prefix_length_le hstop hnested (h nested hf)
      have hskips := (skips_of_find hf).1
      rw [← hbetween] at hskips
      exact ⟨_, (skips_append.mp hskips).1⟩

end Tag

end TemplateEngine
