import TemplateEngine.Buffer.Composition
import TemplateEngine.Proofs.Buffers
import TemplateEngine.Proofs.Splicing

/-!
# Composing in place is faithful

Composition in a buffer does what composition does with texts, and no offset is ever stale
(`Buffer.faithful_compose`). What has been done stands before the cursor of a loop and what is
still to be done behind it; a tag that is replaced in place moves the one and not the other.
-/

namespace TemplateEngine

namespace Buffer

variable {l : Loader} {passed rest : Text} {found : Tag.Found}

/-! ## Includes -/

/-- A tag that was found is replaced in place. -/
theorem replace_of_find {kinds : List TagKind} (h : Tag.find kinds rest = some found)
    (new : Text) :
    replace (passed ++ rest) (Place.of passed.byteSize found).start
        (Place.of passed.byteSize found).stop new
      = .ok (passed ++ found.gap ++ new ++ found.rest) := by
  have hstart := start_of passed found
  exact replace_append (append_of_find h) hstart
    (congrArg (· + found.tag.content.byteSize) hstart) new

/-- What has been spliced of a text, with what was read before. -/
def withLoads (loads : List Text) (whole : Spliced) : Spliced :=
  ⟨whole.text, loads ++ whole.loads⟩

/-- Where a loop stands behind a part that was put in. -/
def behindPart (loads : List Text) (passed : Text) (found : Tag.Found) (new : Spliced) :
    Cursor (List Text) :=
  ⟨loads ++ new.loads, passed ++ found.gap ++ new.text ++ found.rest,
    (passed ++ found.gap ++ new.text).byteSize⟩

theorem faithful_spliceFrom {turn : Cursor (List Text) → Place → Except Halt (Cursor (List Text))}
    {part : Text → Tag.Found → Except TemplateError Spliced}
    (hturn : ∀ loads passed rest found, Tag.find [.inclusion] rest = some found →
      Faithful (turn ⟨loads, passed ++ rest, passed.byteSize⟩ (.of passed.byteSize found))
        ((part (passed ++ rest) found).map (behindPart loads passed found)))
    (loads : List Text) (passed rest : Text) :
    Faithful (loop [.inclusion] turn spliceLast ⟨loads, passed ++ rest, passed.byteSize⟩)
      ((Text.spliceFrom part passed.length (passed ++ rest)).map (withLoads loads)) := by
  fun_induction Tag.split [.inclusion] rest generalizing loads passed with
  | case1 text h =>
    rw [loop_of_find_eq_none h, Text.spliceFrom_of_find_eq_none (by rwa [List.drop_left])]
    change Faithful (.ok ⟨passed ++ text, loads⟩) (.ok (withLoads loads ⟨passed ++ text, []⟩))
    rw [withLoads, List.append_nil]
    exact .ok _
  | case2 text found h _ ih =>
    have hsplice : (Text.spliceFrom part passed.length (passed ++ text)).map (withLoads loads)
        = part (passed ++ text) found >>= fun new =>
          (Text.spliceFrom part (passed ++ found.gap ++ new.text).length
            (passed ++ found.gap ++ new.text ++ found.rest)).map
              (withLoads (loads ++ new.loads)) := by
      rw [Text.spliceFrom_append h]
      cases part (passed ++ text) found with
      | error e => rfl
      | ok new =>
        simp only [bind, Except.bind]
        cases Text.spliceFrom part _ _ with
        | error e => rfl
        | ok whole => simp [Except.map, pure, Except.pure, withLoads]
    rw [hsplice]
    refine .loop h (hturn loads passed text found h) ?_ fun new _ => ih _ _
    intro new _
    rw [behindPart, left_append]
    exact Text.byteSize_lt_of_find h

/-- Only a template error that blames no tag comes from outside of composition. -/
def Blameless (l : Loader) : Prop :=
  ∀ path place fault, l.load path ≠ .error (.misuse place fault)

theorem faithful_splice (hl : Blameless l) (levels : Nat) (text : Text) :
    Faithful (splice l levels text) (l.splice levels text) := by
  have hmap : ∀ result : Except TemplateError Spliced, result.map (withLoads []) = result := by
    intro result
    cases result <;> rfl
  induction levels generalizing text with
  | zero =>
    rw [splice, Loader.splice, ← hmap (Text.spliceFrom ..)]
    refine faithful_spliceFrom ?_ [] [] text
    intro loads passed rest found h
    exact .blame_of_find h rfl .includeTooDeep
  | succ levels ih =>
    rw [splice, Loader.splice, ← hmap (Text.spliceFrom ..)]
    refine faithful_spliceFrom ?_ [] [] text
    intro loads passed rest found h
    rw [map_bind_eq]
    refine .bind (.lift fun place fault he => absurd he (hl _ place fault)) fun template _ => ?_
    rw [map_bind_eq]
    refine .bind (ih template) fun included _ => ?_
    rw [spliceTurn, replace_of_find h]
    have hoffset : (Place.of passed.byteSize found).start + included.text.byteSize
        = (passed ++ found.gap ++ included.text).byteSize := by
      rw [Text.byteSize_append, Text.byteSize_append]
      rfl
    rw [hoffset]
    exact .ok _

/-! ## Blocks -/

theorem gap_prefix_text {text : Text} (h : text = found.gap ++ found.tag.content ++ found.rest) :
    found.gap <+: text :=
  ⟨_, by rw [← List.append_assoc]; exact h.symm⟩

/-- Which of two tags begins first can be seen from the offsets. -/
theorem start_lt_iff {text : Text} {other : Tag.Found} (n : Nat)
    (h : text = found.gap ++ found.tag.content ++ found.rest)
    (h' : text = other.gap ++ other.tag.content ++ other.rest) :
    (Place.of n found).start < (Place.of n other).start
      ↔ found.gap.length < other.gap.length := by
  rw [← Text.byteSize_lt_iff (gap_prefix_text h) (gap_prefix_text h')]
  exact Nat.add_lt_add_iff_left

/-- A header and an end tag do not begin at the same place. -/
theorem gap_ne_of_header {text : Text} {stop header : Tag.Found}
    (hstop : text = stop.gap ++ stop.tag.content ++ stop.rest)
    (hheader : text = header.gap ++ header.tag.content ++ header.rest)
    (hstopKind : stop.tag.kind = .endBlock) (hheaderKind : header.tag.kind = .block) :
    stop.gap ≠ header.gap := by
  intro hgap
  have htags := hstop.symm.trans hheader
  have hstopOpening : TagKind.endBlock.opening = '\x7b' :: '%' :: ' ' :: 'e' :: "ndblock ".toList :=
    rfl
  have hheaderOpening : TagKind.block.opening = '\x7b' :: '%' :: ' ' :: 'b' :: "lock ".toList := rfl
  rw [hgap, List.append_assoc, List.append_assoc, List.append_cancel_left_eq, Tag.content,
    Tag.content, hstopKind, hheaderKind, hstopOpening, hheaderOpening] at htags
  simp only [List.cons_append, List.cons.injEq] at htags
  exact absurd htags.2.2.2.1 (by decide)

/-- Whether an end tag may end a block can be seen from the offsets. -/
theorem ends_of {name text : Text} {stop : Tag.Found} (n : Nat)
    (h : stop ∈ Tag.all [.endBlock] text) :
    ends name ((Tag.find [.block] text).map (.of n)) (.of n stop) = decide (stop.Ends name) := by
  have htext := Tag.eq_of_mem_all h
  have hkind := List.mem_singleton.mp (Tag.kind_mem_of_mem_all h)
  rw [Bool.eq_iff_iff, decide_eq_true_iff]
  obtain ⟨closing, htag⟩ : ∃ closing, stop.tag = .endBlock closing := by
    cases htag : stop.tag with
    | endBlock closing => exact ⟨closing, rfl⟩
    | _ => rw [htag] at hkind; cases hkind
  cases closing with
  | some closing => simp [ends, tag_of, Tag.Found.Ends, htag, Tag.argument?]
  | none =>
    have hbefore : (∀ nested, Tag.find [.block] text = some nested →
          (Place.of n stop).start < (Place.of n nested).start)
        ↔ Tag.find [.block] stop.gap = none := by
      rw [Tag.find_gap_eq_none htext]
      refine forall₂_congr fun nested hnested => ?_
      have hnestedText := Tag.eq_of_find hnested
      rw [start_lt_iff n htext hnestedText]
      refine ⟨Nat.le_of_lt, fun hle => Nat.lt_of_le_of_ne hle fun heq => ?_⟩
      refine gap_ne_of_header htext hnestedText hkind
        (List.mem_singleton.mp (Tag.kind_mem_of_find hnested)) ?_
      exact (List.prefix_of_prefix_length_le (gap_prefix_text htext) (gap_prefix_text hnestedText)
        hle).eq_of_length heq
    have hends : stop.Ends name ↔ Tag.find [.block] stop.gap = none := by
      simp [Tag.Found.Ends, htag]
    rw [hends, ← hbefore]
    cases hnext : Tag.find [.block] text <;> simp [ends, tag_of, htag, Tag.argument?]

variable {buffer name : Text}

/-- The end of a block is found where the search in the rest finds it. -/
theorem endBlock_append (hbuffer : buffer = passed ++ rest) (name : Text) :
    endBlock buffer passed.byteSize name
      = .ok ((Tag.findEndBlock name true rest).map (.of passed.byteSize)) := by
  rw [endBlock, search_append hbuffer rfl, behind_append hbuffer rfl, Tag.findEndBlock_eq_ending?,
    Tag.ending?]
  change Except.ok (((Tag.all [.endBlock] rest).map _).find? _) = _
  rw [List.find?_map]
  exact congrArg (fun stop => Except.ok (Option.map _ stop)) (List.find?_congr fun _ => ends_of _)

/-- Between two blocks the buffer is checked as the gap is. -/
theorem faithful_checkGap {before gap after : Text} {start stop : Nat}
    (hbuffer : buffer = before ++ gap ++ after) (hstart : start = before.byteSize)
    (hstop : stop = before.byteSize + gap.byteSize) :
    Faithful (checkGap buffer start stop) (Overrides.checkGap buffer gap after) := by
  refine .of_ok (slice_append hbuffer hstart hstop) ?_
  refine .of_ok (search_zero _ gap) ?_
  rw [Overrides.checkGap]
  cases hfind : Tag.find [.expression, .statement] gap with
  | none => exact .ok ()
  | some stray =>
    have hkind : stray.tag.kind = .expression ∨ stray.tag.kind = .statement := by
      simpa using Tag.kind_mem_of_find hfind
    have hsource : buffer = before ++ stray.gap ++ stray.tag.content ++ (stray.rest ++ after) := by
      rw [hbuffer, Tag.eq_of_find hfind]
      simp only [List.append_assoc]
    have hstray : start + (Place.of 0 stray).start = (before ++ stray.gap).byteSize := by
      rw [hstart, Text.byteSize_append, Place.of, Nat.zero_add]
    refine .blame ((Tag.stands_of_find hfind).append hkind after) hsource hstray ?_ .betweenBlocks
    exact (Nat.add_assoc ..).symm

/-- The end of a block, in both accounts. -/
theorem faithful_blockEnd {header : Tag.Found} (h : Tag.find [.block] rest = some header)
    (hbuffer : buffer = passed ++ rest) (name : Text) :
    Faithful (blockEnd buffer (.of passed.byteSize header) name)
      ((Overrides.blockEnd buffer header name).map (.of (through passed header).byteSize)) := by
  have hbehind : buffer = through passed header ++ header.rest :=
    hbuffer.trans (through_append h)
  have hheader := Faithful.blame_of_find (α := Place) h hbuffer (.notClosed .block)
  rw [blockEnd, stop_of]
  refine .of_ok (search_append hbehind rfl) ?_
  refine .of_ok (endBlock_append hbehind name) ?_
  rw [Overrides.blockEnd]
  cases hstop : Tag.findEndBlock name true header.rest with
  | none =>
    cases hnested : Tag.find [.block] header.rest with
    | none => exact hheader
    | some nested =>
      have hnestedError := Faithful.blame_of_find (α := Place) hnested hbehind .nestedBlocks
      have hrest := hbehind.trans (through_append hnested)
      simp only [Option.map_none, Option.map_some]
      rw [stop_of]
      refine .of_ok (search_append hrest rfl) ?_
      rw [Option.isSome_map]
      split
      · exact hnestedError
      · exact hheader
  | some stop =>
    cases hnested : Tag.find [.block] header.rest with
    | none => exact .ok _
    | some nested =>
      have hnestedError := Faithful.blame_of_find (α := Place) hnested hbehind .nestedBlocks
      have hless := start_lt_iff (through passed header).byteSize (Tag.eq_of_find hnested)
        (Tag.eq_of_findEndBlock hstop)
      simp only [Option.map_some, hless]
      split
      · exact hnestedError
      · exact .ok _

/-- The body of a block lies between its header and its end. -/
theorem slice_body {header stop : Tag.Found}
    (hstop : Tag.findEndBlock name true header.rest = some stop)
    (hbehind : buffer = through passed header ++ header.rest) :
    slice buffer (through passed header).byteSize
      (Place.of (through passed header).byteSize stop).start = .ok stop.gap := by
  have hbody : buffer = through passed header ++ stop.gap ++ (stop.tag.content ++ stop.rest) := by
    rw [hbehind, Tag.eq_of_findEndBlock hstop]
    simp only [List.append_assoc]
  exact slice_append hbody rfl rfl

/-- The end of the next block, which may have no tags before it. -/
def nextEnd (template : Text) (header : Tag.Found) : Except TemplateError Tag.Found := do
  Overrides.checkGap template header.gap (header.tag.content ++ header.rest)
  Overrides.blockEnd template header (header.tag.argument?.getD [])

theorem findEndBlock_of_nextEnd {template : Text} {header stop : Tag.Found}
    (h : nextEnd template header = .ok stop) :
    Tag.findEndBlock (header.tag.argument?.getD []) true header.rest = some stop := by
  obtain ⟨_, -, hstop⟩ := exists_of_bind_eq_ok h
  exact Overrides.findEndBlock_of_blockEnd hstop

theorem collect_of_find {overrides : Overrides} {template : Text} {header : Tag.Found}
    (h : Tag.find [.block] rest = some header) :
    overrides.collect template rest = nextEnd template header >>= fun stop =>
      (overrides.add (header.tag.argument?.getD []) stop.gap).collect template stop.rest := by
  rw [Overrides.collect, nextEnd]
  split
  · next hnone => cases hnone.symm.trans h
  · next first hfirst =>
    obtain rfl := Option.some.inj (hfirst.symm.trans h)
    split
    · next e he => rw [he]; rfl
    · next he =>
      rw [he]
      dsimp only [bind, Except.bind]
      split <;> next hend => rw [hend]

/-- What is left behind the end of a block. -/
theorem through_append_of_end {header stop : Tag.Found} (h : Tag.find [.block] rest = some header)
    (hstop : Tag.findEndBlock name true header.rest = some stop) :
    passed ++ rest = through (through passed header) stop ++ stop.rest := by
  rw [through_append h, Tag.eq_of_findEndBlock hstop]
  simp only [through, List.append_assoc]

theorem byteSize_lt_of_block {header stop : Tag.Found} (h : Tag.find [.block] rest = some header)
    (hstop : Tag.findEndBlock name true header.rest = some stop) :
    stop.rest.byteSize < rest.byteSize := by
  have hheader := Text.byteSize_lt_of_find h
  have hsize := congrArg Text.byteSize (Tag.eq_of_findEndBlock hstop)
  simp only [Text.byteSize_append] at hsize
  omega

/-- Where the collection of blocks stands behind a block. -/
def behindBlock (overrides : Overrides) (passed rest : Text) (header stop : Tag.Found) :
    Cursor Overrides :=
  ⟨overrides.add (header.tag.argument?.getD []) stop.gap, passed ++ rest,
    (through (through passed header) stop).byteSize⟩

theorem faithful_collectTurn {header : Tag.Found} (overrides : Overrides)
    (h : Tag.find [.block] rest = some header) :
    Faithful (collectTurn ⟨overrides, passed ++ rest, passed.byteSize⟩
        (.of passed.byteSize header))
      ((nextEnd (passed ++ rest) header).map (behindBlock overrides passed rest header)) := by
  have hgap : passed ++ rest = passed ++ header.gap ++ (header.tag.content ++ header.rest) := by
    rw [Tag.eq_of_find h]
    simp only [List.append_assoc]
  rw [nextEnd, map_bind_eq]
  refine .bind (faithful_checkGap hgap rfl rfl) fun _ _ => ?_
  refine .map_of (faithful_blockEnd h rfl _) fun stop hend => ?_
  have hstop := Overrides.findEndBlock_of_blockEnd hend
  rw [stop_of, slice_body hstop (through_append h), stop_of]
  rfl

theorem collect_of_find_eq_none {overrides : Overrides} {template text : Text}
    (h : Tag.find [.block] text = none) :
    overrides.collect template text
      = (Overrides.checkGap template text []).map fun _ => overrides := by
  rw [Overrides.collect]
  split
  · rfl
  · next hsome => cases h.symm.trans hsome

/-- The blocks of a child are collected, in both accounts. -/
theorem faithful_collect (overrides : Overrides) (hbuffer : buffer = passed ++ rest) :
    Faithful (collect overrides buffer passed.byteSize) (overrides.collect buffer rest) := by
  induction hn : rest.length using Nat.strong_induction_on generalizing overrides passed rest with
  | _ n ih =>
    subst hbuffer hn
    cases h : Tag.find [.block] rest with
    | none =>
      rw [collect, loop_of_find_eq_none h, collect_of_find_eq_none h]
      exact .map (faithful_checkGap (List.append_nil _).symm rfl (Text.byteSize_append _ _))
    | some header =>
      rw [collect, collect_of_find h]
      refine .loop h (faithful_collectTurn overrides h) ?_ ?_
      · intro stop hstop
        have hfound := findEndBlock_of_nextEnd hstop
        rw [behindBlock, through_append_of_end h hfound, left_append]
        exact byteSize_lt_of_block h hfound
      · intro stop hstop
        have hfound := findEndBlock_of_nextEnd hstop
        exact ih _ (Overrides.length_lt_of_block h hfound) _ (through_append_of_end h hfound) rfl

/-- What stands in the end for a block of the root, and what follows the block. -/
def replacement (overrides : Overrides) (template : Text) (header : Tag.Found) :
    Except TemplateError (Text × Text) :=
  let name := header.tag.argument?.getD []
  match Tag.findEndBlock name true header.rest with
  | none => .ok (overrides.resolve name [], header.rest)
  | some stop =>
    match (Tag.find [.block] header.rest).filter (·.gap.length < stop.gap.length) with
    | some nested => .error (.misuse (nested.span template) .nestedBlocks)
    | none => .ok (overrides.resolve name stop.gap, stop.rest)

theorem replaceIn_of_find {overrides : Overrides} {header : Tag.Found}
    (h : Tag.find [.block] rest = some header) :
    overrides.replaceIn passed rest
      = replacement overrides (passed ++ rest) header >>= fun new =>
          overrides.replaceIn (passed ++ header.gap ++ new.1) new.2 := by
  rw [Overrides.replaceIn, replacement]
  split
  · next hnone => cases hnone.symm.trans h
  · next first hfirst =>
    obtain rfl := Option.some.inj (hfirst.symm.trans h)
    dsimp only
    split
    · next hend => rw [hend]; rfl
    · next stop hend =>
      rw [hend]
      dsimp only
      cases (Tag.find [.block] first.rest).filter (·.gap.length < stop.gap.length) <;> rfl

theorem replaceIn_of_find_eq_none {overrides : Overrides} (h : Tag.find [.block] rest = none) :
    overrides.replaceIn passed rest = .ok (passed ++ rest) := by
  rw [Overrides.replaceIn]
  split
  · rfl
  · next hsome => cases h.symm.trans hsome

/-- Less is left behind a block of the root than there was. -/
theorem byteSize_lt_of_replacement {overrides : Overrides} {template : Text} {header : Tag.Found}
    {new : Text × Text} (h : Tag.find [.block] rest = some header)
    (hnew : replacement overrides template header = .ok new) :
    new.2.byteSize < rest.byteSize ∧ new.2.length < rest.length := by
  unfold replacement at hnew
  dsimp only at hnew
  split at hnew
  · cases hnew
    exact ⟨Text.byteSize_lt_of_find h, Tag.length_lt_of_find h⟩
  · next stop hstop =>
    split at hnew
    · cases hnew
    · cases hnew
      exact ⟨byteSize_lt_of_block h hstop, Overrides.length_lt_of_block h hstop⟩

/-- A header inside of a block can be seen from the offsets. -/
theorem filter_map_of {text : Text} {stop : Tag.Found} {n : Nat}
    (hstop : Tag.findEndBlock name true text = some stop) :
    ((Tag.find [.block] text).map (Place.of n)).filter (·.start < (Place.of n stop).start)
      = ((Tag.find [.block] text).filter (·.gap.length < stop.gap.length)).map (.of n) := by
  cases hnested : Tag.find [.block] text with
  | none => rfl
  | some nested =>
    have hless := start_lt_iff n (Tag.eq_of_find hnested) (Tag.eq_of_findEndBlock hstop)
    simp only [Option.map_some, Option.filter_some, hless]
    split <;> rfl

/-- Where the replacement of blocks stands behind a block. -/
def behindReplaced (passed : Text) (header : Tag.Found) (new : Text × Text) : Cursor Unit :=
  ⟨(), passed ++ header.gap ++ new.1 ++ new.2, (passed ++ header.gap ++ new.1).byteSize⟩

theorem faithful_replaceTurn {header : Tag.Found} (overrides : Overrides)
    (h : Tag.find [.block] rest = some header) :
    Faithful (replaceTurn overrides ⟨(), passed ++ rest, passed.byteSize⟩
        (.of passed.byteSize header))
      ((replacement overrides (passed ++ rest) header).map (behindReplaced passed header)) := by
  have hbehind : passed ++ rest = through passed header ++ header.rest := through_append h
  rw [replaceTurn, replacement]
  simp only [tag_of]
  rw [stop_of passed header]
  refine .of_ok (endBlock_append hbehind _) ?_
  cases hstop : Tag.findEndBlock (header.tag.argument?.getD []) true header.rest with
  | none =>
    refine .of_ok (stop_of passed header ▸ replace_of_find h _) ?_
    rw [start_of, ← Text.byteSize_append]
    exact .ok _
  | some stop =>
    refine .of_ok (search_append hbehind rfl) ?_
    rw [filter_map_of hstop]
    cases hfilter : (Tag.find [.block] header.rest).filter (·.gap.length < stop.gap.length) with
    | some nested =>
      obtain ⟨hnested, -⟩ := Option.filter_eq_some_iff.mp hfilter
      dsimp only [Option.map_some]
      rw [hfilter]
      exact .blame_of_find hnested hbehind .nestedBlocks
    | none =>
      refine .of_ok (slice_body hstop hbehind) ?_
      have hblock : passed ++ rest = passed ++ header.gap
          ++ (header.tag.content ++ stop.gap ++ stop.tag.content) ++ stop.rest := by
        rw [through_append_of_end h hstop]
        simp only [through, List.append_assoc]
      refine .of_ok (replace_append hblock (start_of passed header) ?_ _) ?_
      · rw [stop_of]
        simp only [through, Text.byteSize_append, Nat.add_assoc]
      · rw [start_of, ← Text.byteSize_append]
        dsimp only
        rw [hfilter]
        exact .ok _

/-- The blocks of the root are replaced, in both accounts. -/
theorem faithful_replaceBlocks (overrides : Overrides) (text : Text) :
    Faithful (replaceBlocks overrides text) (overrides.replaceIn [] text) := by
  suffices hloop : ∀ passed rest, Faithful (loop [.block] (replaceTurn overrides)
      (fun c => .ok c.buffer) ⟨(), passed ++ rest, passed.byteSize⟩)
        (overrides.replaceIn passed rest) from
    hloop [] text
  intro passed rest
  induction hn : rest.length using Nat.strong_induction_on generalizing passed rest with
  | _ n ih =>
    subst hn
    cases h : Tag.find [.block] rest with
    | none =>
      rw [loop_of_find_eq_none h, replaceIn_of_find_eq_none h]
      exact .ok _
    | some header =>
      rw [replaceIn_of_find h]
      refine .loop h (faithful_replaceTurn overrides h) ?_ ?_
      · intro new hnew
        rw [behindReplaced, left_append]
        exact (byteSize_lt_of_replacement h hnew).1
      · intro new hnew
        exact ih _ (byteSize_lt_of_replacement h hnew).2 _ _ rfl

/-! ## Parents -/

theorem faithful_finish (hl : Blameless l) (overrides : Overrides) (loads : List Text)
    (text : Text) :
    Faithful (finish l overrides loads text) (l.finish overrides loads text) :=
  .bind (faithful_splice hl _ text) fun root _ =>
    .bind (faithful_replaceBlocks overrides root.text) fun _ _ => .ok _

theorem faithful_round (hl : Blameless l) (a : Ascent) : Faithful (round l a) (l.round a) := by
  rw [round, Loader.round]
  refine .of_ok (search_zero _ a.text) ?_
  cases hinherits : Tag.find [.inherits] a.text with
  | none => exact .map (faithful_finish hl ..)
  | some found =>
    simp only [Option.map_some, tag_of, List.contains_iff_mem]
    refine .ite (fun _ => .error fun place fault he => by cases he) fun _ => ?_
    refine .ite (fun _ => .blame_of_find hinherits (List.nil_append _).symm .circularExtends)
      fun _ => ?_
    refine .bind (.lift fun place fault he => absurd he (hl _ place fault)) fun parent _ => ?_
    refine .bind (faithful_splice hl _ a.text) fun whole _ => ?_
    refine .of_ok (search_zero _ whole.text) ?_
    cases hkeeps : Tag.find [.inherits] whole.text with
    | none => exact .map (faithful_finish hl ..)
    | some found =>
      have hbehind : whole.text = through [] found ++ found.rest :=
        (List.nil_append _).symm.trans (through_append hkeeps)
      have hstop : (Place.of 0 found).stop = (through [] found).byteSize := stop_of [] found
      simp only [Option.map_some, hstop]
      refine .of_ok (search_append hbehind rfl) ?_
      cases hsecond : Tag.find [.inherits] found.rest with
      | some second => exact .blame_of_find hsecond hbehind .misusedExtends
      | none => exact .bind (faithful_collect a.overrides hbehind) fun _ _ => .ok _

theorem faithful_climb (hl : Blameless l) (fuel : Nat) (a : Ascent) :
    Faithful (climb l fuel a) (l.climb fuel a) := by
  induction fuel generalizing a with
  | zero =>
    rw [climb, Loader.climb]
    refine .of_ok (search_zero _ a.text) ?_
    cases hinherits : Tag.find [.inherits] a.text with
    | none => exact faithful_finish hl ..
    | some found => exact .blame_of_find hinherits (List.nil_append _).symm .circularExtends
  | succ fuel ih =>
    have hround := faithful_round hl a
    rw [climb, Loader.climb]
    cases h : l.round a with
    | error e =>
      rw [h] at hround
      exact .of_error hround
    | ok next =>
      rw [h] at hround
      refine .of_ok hround.eq_lift ?_
      cases next with
      | finished composition => exact .ok composition
      | onward next => exact ih next

theorem blameless_loader (r : Resolver) : Blameless r.loader := by
  intro path place fault
  rw [r.load_loader]
  exact Resolver.load_ne_misuse

/-- **Composing in place** ends just as composing does, and no error blames anything but a tag. -/
theorem faithful_compose (r : Resolver) (origin : Option Text) (text : Text) :
    Faithful (compose r origin text) (r.compose origin text) :=
  faithful_climb (blameless_loader r) _ _

end Buffer

end TemplateEngine
