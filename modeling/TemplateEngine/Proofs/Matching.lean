import Mathlib.Data.List.MinMax
import TemplateEngine.Proofs.Buffers
import TemplateEngine.Proofs.Stripping

/-!
# The leftmost and shortest tag

A tag of a kind is what the grammar of the kind derives (`TagKind.Matches`), and a search finds the
tag that begins first, and the shortest of those that begin there (`Buffer.search_leftmost`). Two
facts about reading at one place carry this: what is read is a tag of the grammar
(`TagKind.matches_of_read?`), and where a tag of the grammar stands, one is read that is no longer
(`TagKind.exists_read?`). They hold since each part of a tag is read up to the first place where it
may end (`Text.Shortest`).
-/

namespace TemplateEngine

/-! ## The grammar of tags -/

namespace TagKind

/-- What may stand inside a tag: at least one character, and no newline. -/
def Inside (text : Text) : Prop := text ≠ [] ∧ '\n' ∉ text

/-- The tags of each kind as they are written, between the opening and the closing of the kind, and
the path or name in them. -/
inductive Matches : (kind : TagKind) → (content : Text) → (argument : Option Text) → Prop
  /-- an expression, a statement or a comment on one line -/
  | inside {kind : TagKind} {body : Text}
      (hkind : kind = .expression ∨ kind = .statement ∨ kind = .hashComment)
      (hbody : Inside body) : Matches kind (kind.opening ++ (body ++ kind.closing)) none
  /-- a comment section, which may hold newlines -/
  | comment {body : Text} :
      Matches .blockComment
        (blockComment.opening ++ (bareClosing ++ body ++ Tag.endComment)) none
  /-- a comment section with a label in quotes -/
  | labelled {quote : Char} {label body : Text} (hquote : Character.IsQuote quote)
      (hlabel : '\n' ∉ label) :
      Matches .blockComment
        (blockComment.opening ++ (quote :: label ++ [quote] ++ blockComment.closing ++ body
          ++ Tag.endComment)) none
  /-- a tag with a path in quotes -/
  | path {kind : TagKind} {quote : Char} {path : Text}
      (hkind : kind = .inherits ∨ kind = .inclusion) (hquote : Character.IsQuote quote)
      (hpath : Inside path) :
      Matches kind (kind.opening ++ (quote :: path ++ [quote] ++ kind.closing)) (some path)
  /-- the header of a block, or its end with the name of the block -/
  | name {kind : TagKind} {name : Text} (hkind : kind = .block ∨ kind = .endBlock)
      (hname : name.IsWord) : Matches kind (kind.opening ++ (name ++ kind.closing)) (some name)
  /-- the end of a block without its name -/
  | bare : Matches .endBlock (endBlock.opening ++ bareClosing) none

/-- A tag of a kind, with its argument, stands in a buffer between two offsets. -/
def MatchesAt (kind : TagKind) (buffer : Text) (start stop : Nat) (argument : Option Text) : Prop :=
  ∃ before content after, buffer = before ++ content ++ after ∧ kind.Matches content argument
    ∧ start = before.byteSize ∧ stop = (before ++ content).byteSize

/-- A place is that of the first tag of a kind from an offset on: none begins before it, and of
those that begin with it none ends before it. -/
structure First (kind : TagKind) (buffer : Text) (offset : Nat) (place : Place) : Prop where
  kind_eq : place.tag.kind = kind
  offset_le : offset ≤ place.start
  stands : kind.MatchesAt buffer place.start place.stop place.tag.argument?
  start_le : ∀ start stop argument, offset ≤ start → kind.MatchesAt buffer start stop argument →
    place.start ≤ start
  stop_le : ∀ stop argument, kind.MatchesAt buffer place.start stop argument → place.stop ≤ stop
  argument_eq : ∀ argument, kind.MatchesAt buffer place.start place.stop argument →
    argument = place.tag.argument?

end TagKind

/-- The places of tags that were found one behind the other from an offset on. -/
def Place.along (offset : Nat) : List Tag.Found → List Place
  | [] => []
  | found :: later => .of offset found :: along (Place.of offset found).stop later

/-- A search was repeated from the end of each tag it found, until it found no more. -/
inductive Buffer.Repeats (kinds : List TagKind) (buffer : Text) : Nat → List Place → Prop
  | done {offset : Nat} (hsearch : search kinds buffer offset = .ok none) :
      Repeats kinds buffer offset []
  | next {offset : Nat} {place : Place} {later : List Place}
      (hsearch : search kinds buffer offset = .ok (some place))
      (hlater : Repeats kinds buffer place.stop later) :
      Repeats kinds buffer offset (place :: later)

/-! ## Parts of a tag -/

namespace Text

/-- A way to read up to a stop: what is passed over is allowed, and it is never more than needed. -/
structure Shortest (read : Text → Text → Option (Text × Text)) (allowed : Text → Prop) : Prop where
  sound : ∀ {text stop front rest}, read text stop = some (front, rest) →
    text = front ++ stop ++ rest ∧ allowed front
  complete : ∀ {front} stop rest, allowed front → ∃ first after,
    read (front ++ stop ++ rest) stop = some (first, after) ∧ first <+: front

/-- What stops where it can, and else passes over one character and goes on, reads up to the first
place where it can stop. -/
theorem exists_first {read : Text → Text → Option (Text × Text)} (passes : Char → Prop)
    (hend : read [] [] = some ([], []))
    (hstop : ∀ {c text stop rest}, after? (c :: text) stop = some rest →
      read (c :: text) stop = some ([], rest))
    (hpass : ∀ {c text stop}, passes c → after? (c :: text) stop = none →
      read (c :: text) stop = (read text stop).map fun found => (c :: found.1, found.2))
    {front : Text} (hfront : ∀ c ∈ front, passes c) (stop rest : Text) : ∃ first after,
      read (front ++ stop ++ rest) stop = some (first, after) ∧ first <+: front := by
  induction front with
  | nil =>
    refine ⟨[], rest, ?_, List.prefix_rfl⟩
    rw [List.nil_append]
    cases htext : stop ++ rest with
    | nil =>
      obtain ⟨rfl, rfl⟩ := List.append_eq_nil_iff.mp htext
      exact hend
    | cons c text => exact hstop (htext ▸ after?_append stop rest)
  | cons c front ih =>
    obtain ⟨hc, hfront⟩ := List.forall_mem_cons.mp hfront
    rw [List.cons_append, List.cons_append]
    cases hafter : after? (c :: (front ++ stop ++ rest)) stop with
    | some after => exact ⟨[], after, hstop hafter, List.nil_prefix⟩
    | none =>
      obtain ⟨first, after, hread, hfirst⟩ := ih hfront
      rw [hpass hc hafter, hread]
      exact ⟨c :: first, after, rfl, (List.prefix_cons_inj c).mpr hfirst⟩

theorem upTo?_shortest : Shortest upTo? ('\n' ∉ ·) where
  sound h := ⟨eq_of_upTo? h, newline_not_mem_of_upTo? h⟩
  complete stop rest hfront :=
    exists_first (· ≠ '\n') rfl (fun hstop => by rw [upTo?, hstop])
      (fun hc hafter => by rw [upTo?, hafter]; exact if_neg hc)
      (fun _ hc heq => hfront (heq ▸ hc)) stop rest

theorem someUpTo?_shortest : Shortest someUpTo? TagKind.Inside where
  sound h := ⟨eq_of_someUpTo? h, ne_nil_of_someUpTo? h, newline_not_mem_of_someUpTo? h⟩
  complete := by
    rintro front stop rest ⟨hne, hfront⟩
    obtain ⟨c, front, rfl⟩ := List.exists_cons_of_ne_nil hne
    obtain ⟨hc, hfront⟩ := not_or.mp (mt List.mem_cons.mpr hfront)
    obtain ⟨first, after, hread, hfirst⟩ := upTo?_shortest.complete stop rest hfront
    rw [List.cons_append, List.cons_append, someUpTo?, if_neg (Ne.symm hc), hread]
    exact ⟨c :: first, after, rfl, (List.prefix_cons_inj c).mpr hfirst⟩

theorem cut?_shortest : Shortest cut? fun _ => True where
  sound h := ⟨eq_of_cut? h, trivial⟩
  complete stop rest _ :=
    exists_first (fun _ => True) rfl (fun hstop => by rw [cut?, hstop])
      (fun _ hafter => by rw [cut?, hafter]) (fun _ _ => trivial) stop rest

end Text

/-! ## Reading at one place -/

namespace TagKind

variable {kind : TagKind} {content text rest after : Text} {argument : Option Text} {t : Tag}

section

variable {upTo : Text → Text → Option (Text × Text)} {allowed : Text → Prop} {stop : Text}
  {q : Quoted}

/-- A quoted text is read between matching quotes. -/
theorem allowed_of_read? (hupTo : Text.Shortest upTo allowed)
    (h : Quoted.read? upTo stop text = some (q, rest)) :
    Character.IsQuote q.quote ∧ allowed q.text := by
  cases text with
  | nil => cases h
  | cons c text =>
    rw [Quoted.read?] at h
    split at h
    · next hquote =>
      obtain ⟨⟨quoted, _⟩, hquoted, heq⟩ := Option.map_eq_some_iff.mp h
      obtain ⟨rfl, rfl⟩ := Prod.mk.inj heq
      exact ⟨hquote.symm, (hupTo.sound hquoted).2⟩
    · cases h

/-- A quoted text is read up to the first quote that the stop follows. -/
theorem exists_read?_quoted (hupTo : Text.Shortest upTo allowed) {quote : Char} {quoted : Text}
    (hquote : Character.IsQuote quote) (hquoted : allowed quoted) (stop rest : Text) :
    ∃ first after, Quoted.read? upTo stop (quote :: quoted ++ [quote] ++ stop ++ rest)
      = some (⟨quote, first⟩, after) ∧ first <+: quoted := by
  obtain ⟨first, after, hread, hfirst⟩ := hupTo.complete (quote :: stop) rest hquoted
  refine ⟨first, after, ?_, hfirst⟩
  have htext : quote :: quoted ++ [quote] ++ stop ++ rest
      = quote :: (quoted ++ quote :: stop ++ rest) := by simp
  rw [htext, Quoted.read?, if_pos hquote.symm, hread]
  rfl

end

/-- What is read is a tag of the grammar. -/
theorem matches_of_read? (h : kind.read? text = some (t, rest)) :
    kind.Matches t.content t.argument? := by
  obtain ⟨inner, -, hinner⟩ := Option.bind_eq_some_iff.mp h
  cases kind
  case expression | statement | hashComment =>
    obtain ⟨⟨body, _⟩, hbody, heq⟩ := Option.map_eq_some_iff.mp hinner
    obtain ⟨rfl, -⟩ := Prod.mk.inj heq
    exact .inside (by decide) (Text.someUpTo?_shortest.sound hbody).2
  case blockComment =>
    rw [readInner?] at hinner
    split at hinner
    · obtain ⟨body, rfl, -⟩ := eq_of_readSection? hinner
      exact .comment
    · obtain ⟨⟨label, _⟩, hlabel, hsection⟩ := Option.bind_eq_some_iff.mp hinner
      obtain ⟨body, rfl, -⟩ := eq_of_readSection? hsection
      obtain ⟨hquote, hline⟩ := allowed_of_read? Text.upTo?_shortest hlabel
      exact .labelled hquote hline
  case inherits | inclusion =>
    obtain ⟨⟨path, _⟩, hpath, heq⟩ := Option.map_eq_some_iff.mp hinner
    obtain ⟨rfl, -⟩ := Prod.mk.inj heq
    obtain ⟨hquote, hinside⟩ := allowed_of_read? Text.someUpTo?_shortest hpath
    exact .path (by decide) hquote hinside
  case block =>
    obtain ⟨name, hname, rfl⟩ := exists_of_read?_block h
    exact .name (.inl rfl) hname
  case endBlock =>
    obtain ⟨name, hname, rfl⟩ := exists_of_read?_endBlock h
    cases name with
    | none => exact .bare
    | some name => exact .name (.inr rfl) (hname name rfl)

theorem read?_of_readInner? {inner : Text} (h : kind.readInner? (inner ++ rest) = some (t, after)) :
    kind.read? (kind.opening ++ inner ++ rest) = some (t, after) := by
  rw [read?, List.append_assoc, Text.after?_append]
  exact h

/-- A section is read up to its first end. -/
theorem exists_readSection? (label : Option Quoted) (body rest : Text) :
    ∃ first after, readSection? label (body ++ Tag.endComment ++ rest)
      = some (.blockComment label first, after) ∧ first <+: body := by
  obtain ⟨first, after, hread, hfirst⟩ := Text.cut?_shortest.complete Tag.endComment rest trivial
  refine ⟨first, after, ?_, hfirst⟩
  rw [readSection?, hread]
  rfl

/-- A label is not mistaken for the closing of a section without one. -/
theorem after?_bareClosing_of_isQuote {quote : Char} (h : Character.IsQuote quote) (text : Text) :
    Text.after? (quote :: text) bareClosing = none := by
  rcases h with rfl | rfl <;> rfl

/-- A section with a label is read, and it is no longer: a shorter label leaves more to the body, in
which the end is still found. -/
theorem exists_readInner?_labelled {quote : Char} {label : Text} (hquote : Character.IsQuote quote)
    (hlabel : '\n' ∉ label) (body rest : Text) : ∃ first others after,
      blockComment.readInner? (quote :: label ++ [quote] ++ blockComment.closing ++ body
        ++ Tag.endComment ++ rest) = some (.blockComment (some ⟨quote, first⟩) others, after)
      ∧ first.length + others.length ≤ label.length + body.length := by
  obtain ⟨first, behind, hread, hfirst⟩ := exists_read?_quoted Text.upTo?_shortest hquote hlabel
    blockComment.closing (body ++ Tag.endComment ++ rest)
  have htext := Quoted.eq_of_read? Text.eq_of_upTo? hread
  have hlength := congrArg List.length htext
  have hle := hfirst.length_le
  simp only [Quoted.content, List.length_append, List.length_cons] at hlength
  obtain ⟨front, rfl⟩ : body ++ Tag.endComment ++ rest <:+ behind :=
    List.suffix_of_suffix_length_le ⟨_, rfl⟩ ⟨_, htext.symm⟩
      (by simp only [List.length_append]; omega)
  obtain ⟨others, after, hsection, hothers⟩ :=
    exists_readSection? (some ⟨quote, first⟩) (front ++ body) rest
  have hle' := hothers.length_le
  refine ⟨first, others, after, ?_, ?_⟩
  · simp only [List.append_assoc] at hread hsection ⊢
    rw [readInner?, List.cons_append, after?_bareClosing_of_isQuote hquote]
    dsimp only
    rw [← List.cons_append, hread, Option.bind_some, hsection]
  · simp only [List.length_append] at hlength hle'
    omega

/-- The end of a block is read with its name. -/
theorem read?_endBlock {name : Text} (h : name.IsWord) (rest : Text) :
    endBlock.read? (endBlock.opening ++ (name ++ endBlock.closing) ++ rest)
      = some (.endBlock (some name), rest) := by
  refine read?_of_readInner? ?_
  have hbare : Text.after? (name ++ endBlock.closing ++ rest) bareClosing = none := by
    obtain ⟨c, more, rfl⟩ := List.exists_cons_of_ne_nil h.1
    have hc : c ≠ '%' := by
      rintro rfl
      exact absurd (h.2 '%' List.mem_cons_self) (by decide)
    exact if_neg hc
  have hword : Text.word? (name ++ endBlock.closing ++ rest)
      = some (name, endBlock.closing ++ rest) := by
    rw [List.append_assoc]
    exact Text.word?_append h (by decide) _
  rw [readInner?, hbare]
  dsimp only
  rw [hword, Option.bind_some, Text.after?_append]
  rfl

/-- **Where a tag of the grammar stands, a tag is read**, and it is no longer. If it is as long, it
has the same argument. -/
theorem exists_read? (h : kind.Matches content argument) (rest : Text) :
    ∃ t after, kind.read? (content ++ rest) = some (t, after)
      ∧ t.content.length ≤ content.length ∧ (t.content = content → t.argument? = argument) := by
  cases h with
  | @inside _ body hkind hbody =>
    obtain ⟨first, after, hread, hfirst⟩ :=
      Text.someUpTo?_shortest.complete kind.closing rest hbody
    have hle := hfirst.length_le
    rcases hkind with rfl | rfl | rfl
    all_goals
      refine ⟨_, after, read?_of_readInner? (congrArg (Option.map _) hread), ?_, fun _ => rfl⟩
      simp only [Tag.content, Tag.inner, Tag.kind, List.length_append]
      omega
  | @comment body =>
    obtain ⟨first, after, hread, hfirst⟩ := exists_readSection? none body rest
    have hle := hfirst.length_le
    refine ⟨.blockComment none first, after, read?_of_readInner? ?_, ?_, fun _ => rfl⟩
    · rw [readInner?, List.append_assoc, List.append_assoc, Text.after?_append, ← List.append_assoc]
      exact hread
    · simp only [Tag.content, Tag.inner, Tag.kind, List.length_append]
      omega
  | @labelled quote label body hquote hlabel =>
    obtain ⟨first, others, after, hread, hle⟩ := exists_readInner?_labelled hquote hlabel body rest
    refine ⟨_, after, read?_of_readInner? hread, ?_, fun _ => rfl⟩
    simp only [Tag.content, Tag.inner, Tag.kind, Quoted.content, List.length_append,
      List.length_cons]
    omega
  | @path _ quote path hkind hquote hpath =>
    obtain ⟨first, after, hread, hfirst⟩ :=
      exists_read?_quoted Text.someUpTo?_shortest hquote hpath kind.closing rest
    have hle := hfirst.length_le
    rcases hkind with rfl | rfl
    all_goals
      refine ⟨_, after, read?_of_readInner? (congrArg (Option.map _) hread), ?_, ?_⟩
      · simp only [Tag.content, Tag.inner, Tag.kind, Quoted.content, List.length_append,
          List.length_cons]
        omega
      · intro hsame
        have hpaths : first = path := by
          simpa [Tag.content, Tag.inner, Tag.kind, Quoted.content] using hsame
        exact congrArg some hpaths
  | @name _ name hkind hname =>
    rcases hkind with rfl | rfl
    · exact ⟨.block name, rest, read?_block hname rest, Nat.le_refl _, fun _ => rfl⟩
    · exact ⟨.endBlock (some name), rest, read?_endBlock hname rest, Nat.le_refl _, fun _ => rfl⟩
  | bare =>
    refine ⟨.endBlock none, rest, read?_of_readInner? ?_, Nat.le_refl _, fun _ => rfl⟩
    rw [readInner?, Text.after?_append]

theorem Matches.ne_nil (h : kind.Matches content argument) : content ≠ [] := by
  obtain ⟨t, _, -, hle, -⟩ := exists_read? h []
  rintro rfl
  exact t.content_ne_nil (List.length_eq_zero_iff.mp (Nat.le_zero.mp hle))

/-- What is read is the shortest tag of the kind that stands there. -/
theorem content_prefix_of_read? (h : kind.Matches content argument)
    (hread : kind.read? (content ++ rest) = some (t, after)) :
    t.content <+: content ∧ (t.content = content → t.argument? = argument) := by
  obtain ⟨t', after', hread', hle, hargument⟩ := exists_read? h rest
  obtain ⟨rfl, rfl⟩ := Prod.mk.inj (Option.some.inj (hread'.symm.trans hread))
  exact ⟨List.prefix_of_prefix_length_le ⟨_, (eq_of_read? hread).symm⟩ (List.prefix_append _ _) hle,
    hargument⟩

end TagKind

/-! ## Searching -/

namespace Text

variable {text front other : Text}

theorem prefix_of_byteSize_le (h : front <+: text) (h' : other <+: text)
    (hle : front.byteSize ≤ other.byteSize) : front <+: other := by
  refine List.prefix_of_prefix_length_le h h' (Nat.not_lt.mp fun hlt => ?_)
  exact Nat.not_lt.mpr hle ((byteSize_lt_iff h' h).mpr hlt)

theorem byteSize_le_of_prefix (h : front <+: other) : front.byteSize ≤ other.byteSize := by
  obtain ⟨more, rfl⟩ := h
  rw [byteSize_append]
  exact Nat.le_add_right _ _

theorem eq_of_byteSize_eq (h : front <+: text) (h' : other <+: text)
    (heq : front.byteSize = other.byteSize) : front = other :=
  (prefix_of_byteSize_le h h' (Nat.le_of_eq heq)).eq_of_length_le
    (prefix_of_byteSize_le h' h (Nat.le_of_eq heq.symm)).length_le

end Text

namespace Tag

variable {kind : TagKind} {kinds : List TagKind} {passed rest before content after : Text}
  {argument : Option Text}

/-- A tag of the grammar is not passed over. -/
theorem Skips.prefix_of_matches (h : Skips [kind] passed rest) (hm : kind.Matches content argument)
    (htext : passed ++ rest = before ++ (content ++ after)) : passed <+: before := by
  rcases List.append_eq_append_iff.mp htext with ⟨more, rfl, -⟩ | ⟨tail, rfl, hcontent⟩
  · exact List.prefix_append _ _
  · cases tail with
    | nil => exact ⟨[], by rw [List.append_nil, List.append_nil]⟩
    | cons c tail =>
      obtain ⟨t, later, hread, -⟩ := TagKind.exists_read? hm after
      have hnone := (skips_append.mp h).2.1
      rw [List.findSome?_singleton, ← hcontent, hread] at hnone
      cases hnone

/-- Of two results the one that is found first, or the former if both are found at one place. -/
def Found.earlier (a b : Found) : Found := if b.gap.byteSize < a.gap.byteSize then b else a

theorem Found.earlier_cons (c : Char) (a b : Found) :
    earlier { a with gap := c :: a.gap } { b with gap := c :: b.gap }
      = { earlier a b with gap := c :: (earlier a b).gap } := by
  simp only [earlier, Text.byteSize, Nat.add_lt_add_iff_left]
  split <;> rfl

theorem find_nil (text : Text) : find [] text = none := by
  induction text with
  | nil => rfl
  | cons c text ih => rw [find, ih]; rfl

/-- A search for one more kind finds the first tag of this kind or that of the others, whichever
is first. -/
theorem find_cons (kind : TagKind) (kinds : List TagKind) (text : Text) :
    find (kind :: kinds) text = (find [kind] text).merge Found.earlier (find kinds text) := by
  induction text with
  | nil => rfl
  | cons c text ih =>
    have hpos : 0 < c.utf8Size := c.utf8Size_pos
    simp only [find, List.findSome?_cons, List.findSome?_nil]
    cases kind.read? (c :: text) with
    | some pair =>
      -- nothing is found before the first character
      generalize kinds.findSome? (·.read? (c :: text)) = here
      cases here with
      | some other => rfl
      | none => cases find kinds text <;> rfl
    | none =>
      generalize kinds.findSome? (·.read? (c :: text)) = here
      cases here with
      | some pair =>
        cases find [kind] text with
        | none => rfl
        | some found => exact congrArg some (if_pos (Nat.add_pos_left hpos _)).symm
      | none =>
        dsimp only
        rw [ih]
        cases find [kind] text with
        | none => cases find kinds text <;> rfl
        | some found =>
          cases find kinds text with
          | none => rfl
          | some other => exact congrArg some (Found.earlier_cons c found other).symm

end Tag

namespace Buffer

variable {kind : TagKind} {kinds : List TagKind} {buffer passed rest : Text} {offset : Nat}
  {place : Place} {places : List Place} {found : Tag.Found}

/-- What stands in a buffer from an offset on stands in the rest of it. -/
theorem exists_of_matchesAt {start stop : Nat} {argument : Option Text}
    (h : kind.MatchesAt (passed ++ rest) start stop argument) (hle : passed.byteSize ≤ start) :
    ∃ before content after, rest = before ++ (content ++ after) ∧ kind.Matches content argument
      ∧ start = passed.byteSize + before.byteSize ∧ stop = start + content.byteSize := by
  obtain ⟨before, content, after, htext, hmatches, rfl, rfl⟩ := h
  rw [List.append_assoc] at htext
  obtain ⟨more, rfl⟩ := Text.prefix_of_byteSize_le ⟨rest, rfl⟩ ⟨_, htext.symm⟩ hle
  rw [List.append_assoc, List.append_cancel_left_eq] at htext
  exact ⟨more, content, after, htext, hmatches, Text.byteSize_append .., Text.byteSize_append ..⟩

/-- A tag of the kind stands behind what a search passes over. -/
theorem exists_of_find (h : Tag.find [kind] rest = some found) {start stop : Nat}
    {argument : Option Text} (hle : passed.byteSize ≤ start)
    (hat : kind.MatchesAt (passed ++ rest) start stop argument) :
    ∃ between content after, found.tag.content ++ found.rest = between ++ (content ++ after)
      ∧ kind.Matches content argument
      ∧ start = (Place.of passed.byteSize found).start + between.byteSize
      ∧ stop = start + content.byteSize := by
  obtain ⟨before, content, after, htext, hmatches, hstart, hstop⟩ := exists_of_matchesAt hat hle
  rw [Tag.eq_of_find h, List.append_assoc] at htext
  obtain ⟨between, rfl⟩ := (Tag.skips_of_find h).1.prefix_of_matches hmatches htext
  rw [List.append_assoc, List.append_cancel_left_eq] at htext
  rw [Text.byteSize_append, ← Nat.add_assoc] at hstart
  exact ⟨between, content, after, htext, hmatches, hstart, hstop⟩

/-- A search for a kind finds its first tag. -/
theorem first_of_find (h : Tag.find [kind] rest = some found) (passed : Text) :
    kind.First (passed ++ rest) passed.byteSize (.of passed.byteSize found) := by
  obtain ⟨-, hread⟩ := Tag.skips_of_find h
  rw [List.findSome?_singleton] at hread
  have hle : passed.byteSize ≤ (Place.of passed.byteSize found).start := Nat.le_add_right _ _
  have hhere {stop : Nat} {argument : Option Text}
      (hat : kind.MatchesAt (passed ++ rest) (Place.of passed.byteSize found).start stop argument) :
      ∃ content : Text, found.tag.content <+: content
        ∧ (found.tag.content = content → found.tag.argument? = argument)
        ∧ stop = (Place.of passed.byteSize found).start + content.byteSize := by
    obtain ⟨between, content, after, htext, hmatches, hstart, hstop⟩ := exists_of_find h hle hat
    obtain rfl : between = [] := Text.byteSize_eq_zero.mp (by omega)
    rw [htext] at hread
    obtain ⟨hstands, hargument⟩ := TagKind.content_prefix_of_read? hmatches hread
    exact ⟨content, hstands, hargument, hstop⟩
  constructor
  case kind_eq => exact TagKind.kind_of_read? hread
  case offset_le => exact hle
  case stands =>
    refine ⟨passed ++ found.gap, found.tag.content, found.rest, append_of_find h,
      TagKind.matches_of_read? hread, start_of passed found, stop_of passed found⟩
  case start_le =>
    intro start stop argument hstart hat
    obtain ⟨between, -, -, -, -, heq, -⟩ := exists_of_find h hstart hat
    omega
  case stop_le =>
    intro stop argument hat
    obtain ⟨content, hstands, -, rfl⟩ := hhere hat
    exact Nat.add_le_add_left (Text.byteSize_le_of_prefix hstands) _
  case argument_eq =>
    intro argument hat
    obtain ⟨content, hstands, hargument, hstop⟩ := hhere hat
    have hsize : found.tag.content.byteSize = content.byteSize := Nat.add_left_cancel hstop
    exact (hargument (Text.eq_of_byteSize_eq hstands List.prefix_rfl hsize)).symm

/-- A search for a kind finds nothing if there is no tag of it. -/
theorem find_eq_none_iff (passed : Text) : Tag.find [kind] rest = none ↔ ∀ start stop argument,
    passed.byteSize ≤ start → ¬kind.MatchesAt (passed ++ rest) start stop argument := by
  constructor
  · intro h start stop argument hle hat
    obtain ⟨before, content, after, rfl, hmatches, -⟩ := exists_of_matchesAt hat hle
    have hskips := Tag.find_eq_none.mp h
    have hstands := hskips.prefix_of_matches hmatches (List.append_nil _)
    have hne := List.length_pos_of_ne_nil hmatches.ne_nil
    have hlength := hstands.length_le
    simp only [List.length_append] at hlength
    omega
  · intro h
    refine Option.eq_none_iff_forall_ne_some.mpr fun found hfound => ?_
    have hfirst := first_of_find hfound passed
    exact h _ _ _ hfirst.offset_le hfirst.stands

/-- A search for several kinds finds the first of what searches for each of them find. -/
theorem find_eq_argmin (kinds : List TagKind) (rest : Text) (n : Nat) :
    (Tag.find kinds rest).map (Place.of n)
      = (kinds.filterMap fun kind => (Tag.find [kind] rest).map (Place.of n)).argmin
        Place.start := by
  induction kinds with
  | nil => rw [Tag.find_nil]; rfl
  | cons kind kinds ih =>
    rw [Tag.find_cons, List.filterMap_cons]
    cases Tag.find [kind] rest with
    | none =>
      rw [Option.merge_none_left]
      exact ih
    | some found =>
      dsimp only [Option.map_some]
      rw [List.argmin_cons, ← ih]
      cases Tag.find kinds rest with
      | none => rfl
      | some other =>
        simp only [Option.merge_some_some, Option.map_some, Tag.Found.earlier, Place.of,
          Nat.add_lt_add_iff_left]
        split <;> rfl

/-! ## Searching again and again -/

/-- A search goes on where the tag before ended. -/
theorem repeats_split (kinds : List TagKind) (passed rest : Text) :
    Repeats kinds (passed ++ rest) passed.byteSize
      (Place.along passed.byteSize (Tag.split kinds rest).1) := by
  fun_induction Tag.split kinds rest generalizing passed with
  | case1 rest hnone =>
    refine .done ?_
    rw [search_append rfl rfl, hnone]
    rfl
  | case2 rest found hfound _ ih =>
    have hsearch : search kinds (passed ++ rest) passed.byteSize
        = .ok (some (.of passed.byteSize found)) := by
      rw [search_append rfl rfl, hfound]
      rfl
    have hlater := ih (through passed found)
    rw [← through_append hfound, ← stop_of] at hlater
    exact .next hsearch hlater

theorem bounds_of_search (h : search kinds buffer offset = .ok (some place)) :
    offset ≤ place.start ∧ place.start < place.stop := by
  obtain ⟨rest, -, hfind⟩ := exists_of_bind_eq_ok h
  obtain ⟨found, -, rfl⟩ := Option.map_eq_some_iff.mp (Except.ok.inj hfind)
  exact ⟨Nat.le_add_right _ _,
    Nat.lt_add_of_pos_right (Text.byteSize_pos found.tag.content_ne_nil)⟩

/-- The tags that are found one behind the other are apart, and in order. -/
theorem Repeats.pairwise (h : Repeats kinds buffer offset places) :
    (∀ place ∈ places, offset ≤ place.start ∧ place.start < place.stop)
      ∧ places.Pairwise fun earlier later => earlier.stop ≤ later.start := by
  induction h with
  | done => exact ⟨fun place hplace => absurd hplace List.not_mem_nil, .nil⟩
  | @next offset place later hsearch _ ih =>
    obtain ⟨hle, hlt⟩ := bounds_of_search hsearch
    refine ⟨fun other hother => ?_, .cons (fun other hother => (ih.1 other hother).1) ih.2⟩
    rcases List.mem_cons.mp hother with rfl | hother
    · exact ⟨hle, hlt⟩
    · have := ih.1 other hother
      omega

/-- **A search finds the leftmost tag, and the shortest there.** From any offset between characters
it finds a tag of a kind if and only if the grammar of the kind derives one that begins there or
behind; what it finds is the first of them, with the path or name in it. A search for several kinds
finds the one that begins first. Repeated from the end of each tag, a search lists tags that are
apart, in order. -/
theorem search_leftmost (passed rest : Text) : ∃ first : TagKind → Option Place,
    (∀ kind, search [kind] (passed ++ rest) passed.byteSize = .ok (first kind)
      ∧ (first kind = none ↔ ∀ start stop argument, passed.byteSize ≤ start →
        ¬kind.MatchesAt (passed ++ rest) start stop argument)
      ∧ ∀ place ∈ first kind, kind.First (passed ++ rest) passed.byteSize place)
    ∧ ∀ kinds, search kinds (passed ++ rest) passed.byteSize
        = .ok ((kinds.filterMap first).argmin Place.start)
      ∧ ∃ places, Repeats kinds (passed ++ rest) passed.byteSize places
        ∧ places = Place.along passed.byteSize (Tag.split kinds rest).1
        ∧ (∀ place ∈ places, passed.byteSize ≤ place.start ∧ place.start < place.stop)
        ∧ places.Pairwise fun earlier later => earlier.stop ≤ later.start := by
  refine ⟨fun kind => (Tag.find [kind] rest).map (Place.of passed.byteSize), fun kind => ?_,
    fun kinds => ?_⟩
  · refine ⟨search_append rfl rfl, ?_, fun place hplace => ?_⟩
    · rw [Option.map_eq_none_iff]
      exact find_eq_none_iff passed
    · obtain ⟨found, hfound, rfl⟩ := Option.map_eq_some_iff.mp hplace
      exact first_of_find hfound passed
  · have hrepeats := repeats_split kinds passed rest
    refine ⟨?_, _, hrepeats, rfl, hrepeats.pairwise⟩
    rw [search_append rfl rfl, find_eq_argmin]

/-- A quote in a path does not end it, and the first quote that the closing follows does. -/
theorem search_leftmost_quotes : ∃ place,
    search [.inclusion] "x\x7b% include \x27it\x27s\x27 %\x7d\x27 %\x7d".toList 1 = .ok (some place)
      ∧ (place.start, place.stop, place.tag.argument?) = (1, 21, some "it\x27s".toList)
      ∧ TagKind.inclusion.First "x\x7b% include \x27it\x27s\x27 %\x7d\x27 %\x7d".toList 1
        place := by
  obtain ⟨first, hkind, -⟩ :=
    search_leftmost ['x'] "\x7b% include \x27it\x27s\x27 %\x7d\x27 %\x7d".toList
  obtain ⟨hsearch, -, hfirst⟩ := hkind .inclusion
  have hplace : search [.inclusion]
      (['x'] ++ "\x7b% include \x27it\x27s\x27 %\x7d\x27 %\x7d".toList) (Text.byteSize ['x'])
        = .ok (some ⟨1, 21, .inclusion ⟨'\x27', "it\x27s".toList⟩⟩) := by rfl
  exact ⟨_, hplace, rfl, hfirst _ (Except.ok.inj (hsearch.symm.trans hplace))⟩

end Buffer

end TemplateEngine
