import TemplateEngine.Buffer.Compilation
import TemplateEngine.Outline.Gaps
import TemplateEngine.Proofs.ComposingInPlace
import TemplateEngine.Proofs.LexingInPlace
import TemplateEngine.Proofs.Steps

/-!
# Compiling in place is faithful

Compilation in a buffer does what compilation does with texts, and no offset and no position is
ever stale (`Buffer.faithful_compile`). A comment is cut out with whitespace on both sides that
lies next to it. Reading goes along the tags of the buffer, and what an assembly keeps on the way is
sound (`Assembly.Sound`): its opening tags are tags of the buffer, which an error may blame later,
and its waiting positions are positions of its code.

With composition in place this gives both phases (`Buffer.in_range`).
-/

namespace TemplateEngine

/-! ## Who is blamed -/

/-- The tag of a mark. -/
def Mark.found? : Mark → Option Tag.Found
  | .text _ => none
  | .expression found _ | .statement found _ => some found

/-- The tag of the mark, if it has one, is a tag of the text. -/
def Mark.Tagged (text : Text) (m : Mark) : Prop :=
  ∀ found, m.found? = some found → (found.span text).IsTag

namespace Assembly

variable {o : Options} {text : Text} {found : Tag.Found} {a b : Assembly} {α : Type}

/-- An error blames nothing but this piece of text. -/
def BlamesOnly (token : Span) (result : Except TemplateError α) : Prop :=
  ∀ place fault, result = .error (.misuse place fault) → place = token

theorem blamesOnly_ok (token : Span) (x : α) : BlamesOnly token (.ok x) :=
  fun _ _ h => by cases h

theorem blamesOnly_misuse (text : Text) (found : Tag.Found) (fault : SyntaxFault) :
    BlamesOnly (found.span text) (misuse (α := α) text found fault) :=
  fun _ _ h => by cases h; rfl

theorem blamesOnly_parsed_bind {β : Type} {next : α → Except TemplateError β}
    (h : ∀ x, BlamesOnly (found.span text) (next x)) (result : Except ParseError α) :
    BlamesOnly (found.span text) (parsed text found result >>= next) := by
  cases result with
  | error e => exact blamesOnly_misuse text found _
  | ok x => exact h x

theorem blamesOnly_close (a : Assembly) (construct : Construct) :
    BlamesOnly (found.span text) (a.close text found construct) := by
  rw [close]
  split
  · exact blamesOnly_misuse text found _
  · exact blamesOnly_ok _ _

theorem blamesOnly_nextArm (a : Assembly) (arm : Arm) (condition : Option Expr) :
    BlamesOnly (found.span text) (a.nextArm text found arm condition) := by
  rw [nextArm]
  split
  · exact blamesOnly_misuse text found _
  split
  · exact blamesOnly_ok _ _
  · exact blamesOnly_misuse text found _

theorem blamesOnly_emptyArm (a : Assembly) :
    BlamesOnly (found.span text) (a.emptyArm text found) := by
  rw [emptyArm]
  split
  · exact blamesOnly_misuse text found _
  split
  · exact blamesOnly_ok _ _
  · exact blamesOnly_misuse text found _

/-- A statement tag that cannot be read is to blame itself. -/
theorem blamesOnly_directive (a : Assembly) (directive : Directive) :
    BlamesOnly (found.span text) (a.directive text found directive) := by
  cases directive with
  | openIf | openFor | openWhile | exec =>
    exact blamesOnly_parsed_bind (fun x => blamesOnly_ok _ _) _
  | elif condition => exact blamesOnly_parsed_bind (fun e => blamesOnly_nextArm a _ _) _
  | otherwise => exact blamesOnly_nextArm a _ _
  | endIf | endFor | endWhile => exact blamesOnly_close a _
  | empty => exact blamesOnly_emptyArm a
  | autoescape mode =>
    intro place fault h
    simp only [directive] at h
    split at h
    · cases h
    · split at h <;> cases h
  | endAutoescape =>
    simp only [directive]
    split
    · exact blamesOnly_misuse text found _
    · exact blamesOnly_ok _ _
  | strayEndBlock | strayExtends | unknown => exact blamesOnly_misuse text found _

theorem exists_found_of_mark {m : Mark} {place : Span} {fault : SyntaxFault}
    (h : a.mark o text m = .error (.misuse place fault)) :
    ∃ found, m.found? = some found ∧ place = found.span text := by
  cases m with
  | text literal => cases h
  | expression found body =>
    exact ⟨found, rfl, blamesOnly_parsed_bind (fun e => blamesOnly_ok _ _) _ place fault h⟩
  | statement found directive => exact ⟨found, rfl, blamesOnly_directive a directive place fault h⟩

/-- **A tag that was read is to blame** if some marks cannot be read. -/
theorem exists_found_of_read {marks : List Mark} {place : Span} {fault : SyntaxFault}
    (h : a.read o text marks = .error (.misuse place fault)) :
    ∃ m ∈ marks, ∃ found, m.found? = some found ∧ place = found.span text := by
  induction marks generalizing a with
  | nil => cases h
  | cons m marks ih =>
    rw [read, List.foldlM_cons] at h
    cases hm : a.mark o text m with
    | error e =>
      rw [hm] at h
      obtain rfl := Except.error.inj h
      exact ⟨m, List.mem_cons_self, exists_found_of_mark hm⟩
    | ok b =>
      rw [hm] at h
      obtain ⟨m', hmem, hfound⟩ := ih h
      exact ⟨m', List.mem_cons_of_mem m hmem, hfound⟩

theorem exists_found_of_finish {place : Span} {fault : SyntaxFault}
    (h : a.finish text = .error (.misuse place fault)) :
    ∃ construct, ∃ found ∈ a.opens construct, place = found.span text := by
  rw [finish] at h
  split at h
  · next construct found hunclosed =>
    obtain ⟨construct', -, hlast⟩ := List.exists_of_findSome?_eq_some hunclosed
    obtain ⟨found', hfound, heq⟩ := Option.map_eq_some_iff.mp hlast
    obtain ⟨rfl, rfl⟩ := Prod.mk.inj heq
    have hplace := blamesOnly_misuse text found' _ place fault h
    exact ⟨construct', found', List.mem_of_getLast? hfound, hplace⟩
  · cases h

/-! ## What is kept while reading -/

/-- What an assembly keeps of a text is sound: its opening tags are tags of the text, and its
waiting positions are positions of its code. -/
structure Sound (text : Text) (a : Assembly) : Prop where
  isTag : ∀ construct, ∀ found ∈ a.opens construct, (found.span text).IsTag
  waits : ∀ position ∈ a.waiting, position < a.here

theorem sound_empty (text : Text) : Sound text {} := by
  refine ⟨fun construct found h => ?_, fun position h => ?_⟩
  · cases construct <;> cases h
  · cases h

/-- No opening tag comes from elsewhere. -/
theorem Step.mem_opens {m : Mark} {construct : Construct} (h : Step o a m b)
    (hmem : found ∈ b.opens construct) : found ∈ a.opens construct ∨ m.found? = some found := by
  cases h with
  | text | output | exec | mode => exact .inl hmem
  | openIf | openFor | openWhile =>
    cases construct <;>
      first
      | exact .inl hmem
      | exact (List.mem_cons.mp hmem).elim (fun h => .inr (congrArg some h.symm)) .inl
  | elif | otherwise =>
    rw [opens_beginArm] at hmem
    exact .inl hmem
  | empty => exact .inl hmem
  | @close _ _ ended _ _ =>
    rw [opens_leave] at hmem
    refine .inl ?_
    cases ended <;> cases construct <;> first | exact hmem | exact List.mem_of_mem_tail hmem

theorem waiting_of_frames {frame : Frame} {frames : List Frame} (h : a.frames = frame :: frames) :
    a.waiting = frame.waiting ++ frames.flatMap Frame.waiting := by
  rw [waiting, h, List.flatMap_cons]

/-- Closing a construct leaves no position of it waiting. -/
theorem mem_waiting_of_leave {position : Nat} (h : position ∈ a.leave.waiting) :
    position ∈ a.waiting := by
  cases hf : a.frames with
  | nil => rwa [leave, hf] at h
  | cons frame frames =>
    rw [leave_eq hf, waiting, frames_conclude] at h
    rw [waiting_of_frames hf]
    exact List.mem_append_right _ h

theorem frames_beginArm (a : Assembly) (pending : Nat) (exits : List Nat)
    (condition : Option Expr) : (a.beginArm pending exits condition).frames
      = .branch (condition.map fun _ => a.here + 1) (exits ++ [a.here]) :: a.frames := by
  cases condition with
  | none => rfl
  | some e =>
    have hland : ((a.push (.jump 0)).land [pending]).here = a.here + 1 := by simp
    exact congrArg (fun n => Frame.branch (some n) (exits ++ [a.here]) :: a.frames) hland

/-- What waits behind the beginning of an arm has waited before, or it is the end of the arm before
or the beginning of this one. -/
theorem mem_waiting_of_beginArm {pending position : Nat} {exits : List Nat} {frames : List Frame}
    {condition : Option Expr} (hf : a.frames = .branch (some pending) exits :: frames)
    (h : position ∈ ({ a with frames := frames }.beginArm pending exits condition).waiting) :
    position ∈ a.waiting
      ∨ position < ({ a with frames := frames }.beginArm pending exits condition).here := by
  rw [here_beginArm]
  rw [waiting_of_frames (frames_beginArm ..)] at h
  rw [waiting_of_frames hf]
  rcases List.mem_append.mp h with hframe | hframes
  · rcases List.mem_append.mp hframe with hbegin | hexits
    · cases condition with
      | none => cases hbegin
      | some e =>
        obtain rfl := List.mem_singleton.mp hbegin
        exact .inr (Nat.lt_succ_self _)
    · rcases List.mem_append.mp hexits with hexit | hlast
      · exact .inl (List.mem_append_left _ (List.mem_append_right _ hexit))
      · obtain rfl := List.mem_singleton.mp hlast
        exact .inr (Nat.lt_of_lt_of_le (Nat.lt_succ_self _) (Nat.le_add_right _ _))
  · exact .inl (List.mem_append_right _ hframes)

/-- What waits has waited before, or it is a position of the code. -/
theorem Step.mem_waiting {m : Mark} {position : Nat} (h : Step o a m b)
    (hmem : position ∈ b.waiting) : position ∈ a.waiting ∨ position < b.here := by
  cases h with
  | text | output | exec | mode => exact .inl hmem
  | openIf | openFor | openWhile =>
    rcases List.mem_cons.mp hmem with rfl | hmem
    · exact .inr (by simp [here, enter])
    · exact .inl hmem
  | elif _ _ hf | otherwise _ hf => exact mem_waiting_of_beginArm hf hmem
  | @empty _ head frames hf =>
    rw [waiting_of_frames hf]
    rcases List.mem_cons.mp hmem with rfl | hmem
    · exact .inr (here_beginEmpty { a with frames := frames } head ▸ Nat.lt_succ_self _)
    · exact .inl (List.mem_append_right _ hmem)
  | @close _ _ ended =>
    have hforget : (a.forget ended).waiting = a.waiting := by rw [waiting, frames_forget, waiting]
    exact .inl (hforget ▸ mem_waiting_of_leave hmem)

theorem Sound.step {m : Mark} (h : Sound text a) (hstep : Step o a m b) (hm : m.Tagged text) :
    Sound text b where
  isTag construct found hmem := (hstep.mem_opens hmem).elim (h.isTag construct found) (hm found)
  waits position hmem := (hstep.mem_waiting hmem).elim
    (fun hbefore => Nat.lt_of_lt_of_le (h.waits position hbefore) hstep.here_le) id

theorem Sound.read {marks : List Mark} (h : Sound text a) (hread : a.read o text marks = .ok b)
    (hmarks : ∀ m ∈ marks, m.Tagged text) : Sound text b := by
  induction marks generalizing a with
  | nil =>
    cases hread
    exact h
  | cons m marks ih =>
    obtain ⟨c, hstep, hrest⟩ := read_cons_eq_ok hread
    obtain ⟨hm, hmarks⟩ := List.forall_mem_cons.mp hmarks
    exact ih (h.step hstep hm) hrest hmarks

end Assembly

namespace Buffer

variable {o : Options} {passed rest text : Text} {found : Tag.Found}

/-! ## Comments -/

/-- A comment is cut out of the buffer with the whitespace it takes along. -/
theorem removeComment_of_find {kind : TagKind} (o : Options)
    (h : Tag.find [kind] text = some found) :
    removeComment o text (Place.of 0 found).start (Place.of 0 found).stop
      = .ok (o.keepBefore found.gap ++ o.keepAfter found.rest) := by
  obtain ⟨indent, hindent⟩ := o.keepBefore_prefix found.gap
  obtain ⟨newline, hnewline, hsize⟩ := o.exists_eq_append_keepAfter found.rest
  have htext := Tag.eq_of_find h
  have hbefore : slice text 0 (Place.of 0 found).start = .ok found.gap :=
    slice_append (by rw [List.nil_append, ← List.append_assoc, ← htext]) rfl rfl
  have hafter : behind text (Place.of 0 found).stop = .ok found.rest :=
    behind_append htext (stop_of [] found)
  have hstart : (if o.lstripBlocks && found.gap.endsInIndent
        then (found.gap.trimEnd (· == ' ')).byteSize else (Place.of 0 found).start)
      = (o.keepBefore found.gap).byteSize := by
    rw [Options.keepBefore, apply_ite Text.byteSize]
    exact congrArg (ite _ _) (Nat.zero_add _)
  have hstop : (if o.trimBlocks && found.rest.head? == some '\n'
        then (Place.of 0 found).stop + 1 else (Place.of 0 found).stop)
      = (o.keepBefore found.gap).byteSize
        + Text.byteSize (indent ++ found.tag.content ++ newline) := by
    have hgap := congrArg Text.byteSize hindent
    simp only [Text.byteSize_append] at hgap ⊢
    rw [hsize, stop_eq_start, show (Place.of 0 found).start = _ from Nat.zero_add _]
    split <;> omega
  have hpieces : text = o.keepBefore found.gap ++ (indent ++ found.tag.content ++ newline)
      ++ o.keepAfter found.rest := by
    simp only [List.append_assoc, ← hnewline]
    rw [← List.append_assoc, hindent, ← List.append_assoc, ← htext]
  rw [removeComment, hbefore, hafter]
  change replace text (if _ then _ else _) (if _ then _ else _) [] = _
  rw [hstart, hstop, replace_append hpieces rfl rfl, List.append_nil]

theorem byteSize_lt_of_takeOut {kinds : List TagKind} (o : Options)
    (h : Tag.find kinds text = some found) :
    Text.byteSize (o.keepBefore found.gap ++ o.keepAfter found.rest) < text.byteSize := by
  obtain ⟨indent, hindent⟩ := o.keepBefore_prefix found.gap
  obtain ⟨newline, hnewline, -⟩ := o.exists_eq_append_keepAfter found.rest
  have hpos := Text.byteSize_pos found.tag.content_ne_nil
  have hsize := congrArg Text.byteSize (Tag.eq_of_find h)
  have hgap := congrArg Text.byteSize hindent
  have hrest := congrArg Text.byteSize hnewline
  simp only [Text.byteSize_append] at hsize hgap hrest ⊢
  omega

theorem stripTags_eq (kind : TagKind) (o : Options) (text : Text) :
    stripTags kind o text = .ok (text.stripTags kind o) := by
  fun_induction Text.stripTags kind o text with
  | case1 text h =>
    rw [stripTags]
    change loop _ _ _ ⟨(), [] ++ text, Text.byteSize []⟩ = _
    rw [loop_of_find_eq_none h]
    rfl
  | case2 text found h _ ih =>
    rw [stripTags]
    change loop _ _ _ ⟨(), [] ++ text, Text.byteSize []⟩ = _
    rw [loop_of_find h]
    have hturn : stripTurn o ⟨(), [] ++ text, Text.byteSize []⟩ (Place.of (Text.byteSize []) found)
        = .ok ⟨(), o.keepBefore found.gap ++ o.keepAfter found.rest, 0⟩ := by
      change (removeComment o text (Place.of 0 found).start (Place.of 0 found).stop >>= _) = _
      rw [removeComment_of_find o h]
      rfl
    rw [hturn]
    exact (if_pos (byteSize_lt_of_takeOut o h)).trans ih

theorem stripComments_eq (o : Options) (text : Text) :
    stripComments o text = .ok (text.stripComments o) := by
  rw [stripComments, stripTags_eq]
  exact stripTags_eq .blockComment o _

example : stripComments {} "é\n  \x7b# ß #\x7d\nü".toList = .ok "é\nü".toList := by decide +kernel

/-! ## Tags -/

/-- What stands between the marks of an expression is its body. -/
theorem readTag_eq {token : Span} (h : token.content = found.tag.content) :
    readTag token found = .ok (Mark.ofTag found) := by
  rw [readTag, Mark.ofTag]
  cases htag : found.tag with
  | expression body =>
    have hcontent : token.content = TagKind.opening .expression ++ body
        ++ TagKind.closing .expression := by
      rw [h, htag, Tag.content, Tag.inner, Tag.kind, List.append_assoc]
    have hsize : token.content.byteSize = markSize + body.byteSize + markSize := by
      rw [hcontent, Text.byteSize_append, Text.byteSize_append]
      rfl
    have hbody : slice token.content markSize (token.content.byteSize - markSize) = .ok body :=
      slice_append hcontent rfl (by rw [hsize, Nat.add_sub_cancel]; rfl)
    rw [hbody, ok_bind, scan_eq_ok]
    rfl
  | statement body =>
    have hscan : ∀ parsed : Option Text, parsed.forM scan = .ok () := by
      intro parsed
      cases parsed with
      | none => rfl
      | some text => exact scan_eq_ok text
    dsimp only
    rw [hscan, ok_bind]
    rfl
  | _ => rfl

theorem tagged_of_mem_ofText {m : Mark} {literal : Text} (h : m ∈ Mark.ofText literal) :
    m.Tagged text := by
  rw [Mark.ofText] at h
  split at h
  · cases h
  · obtain rfl := List.mem_singleton.mp h
    exact fun found hfound => by cases hfound

theorem found?_of_mem_ofTag {m : Mark} (h : m ∈ Mark.ofTag found) : m.found? = some found := by
  rw [Mark.ofTag] at h
  split at h
  · obtain rfl := List.mem_singleton.mp h
    rfl
  · obtain rfl := List.mem_singleton.mp h
    rfl
  · cases h

/-- The marks of a tag, and of the text before it. -/
def marksOf (o : Options) (afterStatement : Bool) (found : Tag.Found) : List Mark :=
  Mark.ofText (o.keepBetween afterStatement found.tag.isStatement found.gap) ++ Mark.ofTag found

theorem tagged_of_mem_marksOf {kinds : List TagKind} {afterStatement : Bool} {m : Mark}
    (h : Tag.find kinds rest = some found) (hm : m ∈ marksOf o afterStatement found) :
    m.Tagged (passed ++ rest) := by
  rcases List.mem_append.mp hm with hm | hm
  · exact tagged_of_mem_ofText hm
  · intro found' hfound
    obtain rfl := Option.some.inj ((found?_of_mem_ofTag hm).symm.trans hfound)
    exact isTag_of_find h rfl

/-- Marks whose tags are tags of the text are read, in both accounts. -/
theorem faithful_readMarks {a : Assembly} {marks : List Mark}
    (h : ∀ m ∈ marks, m.Tagged text) :
    Faithful (Halt.lift (a.read o text marks)) (a.read o text marks) := by
  refine .lift fun place fault he => ?_
  obtain ⟨m, hm, found, hfound, rfl⟩ := Assembly.exists_found_of_read he
  exact h m hm found hfound

/-- Where reading stands behind a tag. -/
def behindTag (passed rest : Text) (found : Tag.Found) (a : Assembly) : Cursor Progress :=
  ⟨⟨found.tag.isStatement, a⟩, passed ++ rest, (through passed found).byteSize⟩

theorem faithful_readTurn {afterStatement : Bool} {a : Assembly}
    (h : Tag.find Outline.tagKinds rest = some found) (ha : a.Sound (passed ++ rest)) :
    Faithful (readTurn o ⟨⟨afterStatement, a⟩, passed ++ rest, passed.byteSize⟩
        (.of passed.byteSize found))
      ((a.read o (passed ++ rest) (marksOf o afterStatement found)).map
        (behindTag passed rest found)) := by
  have hgap : slice (passed ++ rest) passed.byteSize (Place.of passed.byteSize found).start
      = .ok found.gap :=
    slice_append (by rw [append_of_find h, List.append_assoc, List.append_assoc]) rfl rfl
  have hwaits : a.waiting.any (a.here ≤ ·) = false := by
    rw [List.any_eq_false]
    intro position hposition
    simpa using ha.waits position hposition
  rw [readTurn]
  refine .of_ok hgap (.of_ok (span_of_find h rfl) (.of_ok (readTag_eq rfl) ?_))
  simp only [hwaits, Bool.false_eq_true, if_false, stop_of]
  exact .map (faithful_readMarks fun m hm => tagged_of_mem_marksOf h hm)

/-! ## Templates -/

theorem ofTags_split_of_find {kinds : List TagKind} {afterStatement : Bool}
    (h : Tag.find kinds rest = some found) :
    Mark.ofTags o afterStatement (Tag.split kinds rest).1 (Tag.split kinds rest).2
      = marksOf o afterStatement found ++ Mark.ofTags o found.tag.isStatement
        (Tag.split kinds found.rest).1 (Tag.split kinds found.rest).2 := by
  rw [Tag.split_of_find h]
  rfl

theorem faithful_finish_assembly {a : Assembly} (ha : a.Sound text) :
    Faithful (Halt.lift (a.finish text)) (a.finish text) := by
  refine .lift fun place fault he => ?_
  obtain ⟨construct, found, hfound, rfl⟩ := Assembly.exists_found_of_finish he
  exact ha.isTag construct found hfound

/-- **Reading in place** goes on as reading does, from any place with a sound assembly. -/
theorem faithful_readLoop {afterStatement : Bool} {a : Assembly} (htext : text = passed ++ rest)
    (ha : a.Sound text) :
    Faithful (loop Outline.tagKinds (readTurn o) (readLast o)
        ⟨⟨afterStatement, a⟩, text, passed.byteSize⟩)
      (a.read o text (Mark.ofTags o afterStatement (Tag.split Outline.tagKinds rest).1
        (Tag.split Outline.tagKinds rest).2) >>= fun b => b.finish text) := by
  induction hn : rest.length using Nat.strong_induction_on
    generalizing passed rest afterStatement a with
  | _ n ih =>
    subst hn htext
    cases h : Tag.find Outline.tagKinds rest with
    | none =>
      rw [loop_of_find_eq_none h, readLast, Tag.split_of_find_eq_none h]
      refine .of_ok (behind_append rfl rfl) ?_
      refine .bind (faithful_readMarks fun m hm => tagged_of_mem_ofText hm) fun b hb => ?_
      exact faithful_finish_assembly (ha.read hb fun m hm => tagged_of_mem_ofText hm)
    | some found =>
      rw [ofTags_split_of_find h, Assembly.read, List.foldlM_append, bind_assoc]
      refine .loop h (faithful_readTurn h ha) ?_ ?_
      · intro b hb
        rw [behindTag, through_append h, left_append]
        exact Text.byteSize_lt_of_find h
      · intro b hb
        have hsound : b.Sound (passed ++ rest) :=
          ha.read hb fun m hm => tagged_of_mem_marksOf h hm
        exact ih _ (Tag.length_lt_of_find h) (through_append h) hsound rfl

theorem faithful_read (o : Options) (text : Text) : Faithful (read o text) (Plan.read o text) :=
  faithful_readLoop (List.nil_append text).symm (Assembly.sound_empty text)

/-- **Compiling in place** ends just as compiling does, and no error blames anything but a tag. -/
theorem faithful_compile (o : Options) (source : Text) :
    Faithful (compile o source) (Plan.compile o source) :=
  .of_ok (stripComments_eq o source) (faithful_read o _)

/-! ## Both phases -/

/-- **No offset is ever stale**, whatever the templates are. Composing and compiling in place, where
every access is checked, end just as they do with texts: with the same result or the same template
error, so never because an access is out of range. And what an error blames is one tag of the text
it is shown in. -/
theorem in_range (r : Resolver) (origin : Option Text) (o : Options) (text : Text) :
    compose r origin text = Halt.lift (r.compose origin text)
      ∧ compile o text = Halt.lift (Plan.compile o text)
      ∧ ∀ place fault, r.compose origin text = .error (.misuse place fault)
          ∨ Plan.compile o text = .error (.misuse place fault) → place.IsTag := by
  have hcompose := faithful_compose r origin text
  have hcompile := faithful_compile o text
  refine ⟨hcompose.eq_lift, hcompile.eq_lift, ?_⟩
  rintro place fault (h | h)
  · exact hcompose.isTag place fault h
  · exact hcompile.isTag place fault h

end Buffer

end TemplateEngine
