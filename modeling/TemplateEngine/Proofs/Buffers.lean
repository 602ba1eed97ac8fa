import TemplateEngine.Buffer
import TemplateEngine.Proofs.Searching
import TemplateEngine.Tag.Place

/-!
# Offsets that fit

Offsets fit a buffer if the buffer is made of the pieces between them (`Buffer.span_eq_ok`). So
work on a buffer is followed along the pieces: what stands before an offset, and what is left from
there on. The rules here say what an access, a search (`Buffer.search_append`) and a turn of a loop
(`Buffer.loop_append`) do with the pieces.

Two accounts of the same work are compared by `Faithful`: the one on a buffer ends just as the one
on texts, so none of its checks fails, and each piece of text that an error blames is a tag. The
relation goes along with the steps of both (`Faithful.bind`).
-/

namespace TemplateEngine

/-! ## Pieces and their sizes -/

namespace Text

variable {text before rest : Text} {n : Nat}

theorem eq_of_splitAtByte? (h : text.splitAtByte? n = some (before, rest)) :
    text = before ++ rest ∧ n = before.byteSize := by
  fun_induction splitAtByte? text n generalizing before with
  | case1 text =>
    obtain ⟨rfl, rfl⟩ := Prod.mk.inj (Option.some.inj h)
    exact ⟨rfl, rfl⟩
  | case2 => cases h
  | case3 c text n hle ih =>
    obtain ⟨⟨front, back⟩, hsplit, heq⟩ := Option.map_eq_some_iff.mp h
    obtain ⟨rfl, rfl⟩ := Prod.mk.inj heq
    obtain ⟨rfl, hn⟩ := ih hsplit
    exact ⟨rfl, by rw [byteSize]; omega⟩
  | case4 => cases h

theorem splitAtByte?_append (before rest : Text) :
    (before ++ rest).splitAtByte? before.byteSize = some (before, rest) := by
  induction before with
  | nil => cases rest <;> rfl
  | cons c before ih =>
    have hpos := c.utf8Size_pos
    obtain ⟨n, hn⟩ := Nat.exists_eq_add_one_of_ne_zero (n := byteSize (c :: before))
      (by rw [byteSize]; omega)
    have hsize : n + 1 - c.utf8Size = byteSize before := by
      rw [← hn, byteSize, Nat.add_sub_cancel_left]
    rw [hn, List.cons_append, splitAtByte?, if_pos, hsize, ih]
    · rfl
    · rw [← hn, byteSize]
      exact Nat.le_add_right _ _

/-- A text is split at a byte if there are two pieces of it that meet there. -/
theorem splitAtByte?_eq_some :
    text.splitAtByte? n = some (before, rest) ↔ text = before ++ rest ∧ n = before.byteSize := by
  refine ⟨eq_of_splitAtByte?, ?_⟩
  rintro ⟨rfl, rfl⟩
  exact splitAtByte?_append before rest

end Text

theorem Text.byteSize_pos {text : Text} (h : text ≠ []) : 0 < text.byteSize := by
  obtain ⟨c, text, rfl⟩ := List.exists_cons_of_ne_nil h
  exact Nat.lt_of_lt_of_le c.utf8Size_pos (Nat.le_add_right _ _)

theorem Text.byteSize_eq_zero {text : Text} : text.byteSize = 0 ↔ text = [] := by
  refine ⟨fun h => ?_, fun h => h ▸ rfl⟩
  by_contra hne
  exact Nat.ne_of_gt (byteSize_pos hne) h

/-- Of two pieces at the front of a text the longer one has more bytes. -/
theorem Text.byteSize_lt_iff {text front other : Text} (h : front <+: text) (h' : other <+: text) :
    front.byteSize < other.byteSize ↔ front.length < other.length := by
  rcases Nat.lt_or_ge front.length other.length with hlt | hle
  · obtain ⟨more, rfl⟩ := List.prefix_of_prefix_length_le h h' (Nat.le_of_lt hlt)
    have hmore : more ≠ [] := by
      rintro rfl
      simp at hlt
    have hpos := byteSize_pos hmore
    rw [byteSize_append]
    omega
  · obtain ⟨more, rfl⟩ := List.prefix_of_prefix_length_le h' h hle
    rw [byteSize_append, List.length_append]
    omega

theorem Span.ofBytes?_eq_some {text : Text} {start stop : Nat} {s : Span} :
    ofBytes? text start stop = some s
      ↔ text = s.source ∧ start = s.before.byteSize
        ∧ stop = s.before.byteSize + s.content.byteSize := by
  obtain ⟨before, content, after⟩ := s
  simp only [ofBytes?, Option.bind_eq_bind, Option.bind_eq_some_iff, Prod.exists,
    Text.splitAtByte?_eq_some, Option.pure_def, Option.some.injEq, Span.mk.injEq, source]
  constructor
  · rintro ⟨_, _, ⟨rfl, rfl⟩, _, _, ⟨rfl, rfl⟩, rfl, rfl, rfl⟩
    exact ⟨rfl, rfl, Text.byteSize_append _ _⟩
  · rintro ⟨rfl, rfl, rfl⟩
    exact ⟨_, _, ⟨rfl, (Text.byteSize_append _ _).symm⟩, _, _, ⟨rfl, rfl⟩, rfl, rfl, rfl⟩

/-! ## Tags where they stand -/

theorem Text.after?_append_right {text start rest : Text} (h : text.after? start = some rest)
    (more : Text) : (text ++ more).after? start = some (rest ++ more) := by
  rw [after?_eq_some.mp h, List.append_assoc]
  exact after?_append start (rest ++ more)

/-- A line is read up to the same place if more follows. -/
theorem Text.upTo?_append_right {text stop before rest : Text}
    (h : text.upTo? stop = some (before, rest)) (more : Text) :
    (text ++ more).upTo? stop = some (before, rest ++ more) := by
  induction text generalizing before with
  | nil =>
    rw [upTo?] at h
    split at h
    · next hstop =>
      obtain ⟨rfl, rfl⟩ := Prod.mk.inj (Option.some.inj h)
      subst hstop
      cases more <;> simp [upTo?]
    · cases h
  | cons c text ih =>
    have htext := eq_of_upTo? h
    rw [List.cons_append, upTo?, ← List.cons_append]
    rw [upTo?] at h
    cases hafter : after? (c :: text) stop with
    | some behind =>
      rw [hafter] at h
      obtain ⟨rfl, rfl⟩ := Prod.mk.inj (Option.some.inj h)
      rw [after?_append_right hafter]
    | none =>
      have hmore : after? (c :: text ++ more) stop = none := by
        -- an earlier occurrence would lie in the text before the one that was found
        refine Option.eq_none_iff_forall_ne_some.mpr fun behind hbehind => ?_
        have hlength := congrArg List.length htext
        simp only [List.length_append] at hlength
        obtain ⟨front, hfront⟩ := List.prefix_of_prefix_length_le
          ⟨behind, (after?_eq_some.mp hbehind).symm⟩ (List.prefix_append (c :: text) more)
          (by omega)
        cases hafter.symm.trans (after?_eq_some.mpr hfront.symm)
      rw [hafter] at h
      rw [hmore]
      dsimp only at h ⊢
      split at h
      · cases h
      · next hc =>
        obtain ⟨⟨later, behind⟩, hlater, heq⟩ := Option.map_eq_some_iff.mp h
        obtain ⟨rfl, rfl⟩ := Prod.mk.inj heq
        rw [if_neg hc, ih hlater]
        rfl

theorem Text.someUpTo?_append_right {text stop before rest : Text}
    (h : text.someUpTo? stop = some (before, rest)) (more : Text) :
    (text ++ more).someUpTo? stop = some (before, rest ++ more) := by
  cases text with
  | nil => cases h
  | cons c text =>
    rw [List.cons_append, someUpTo?]
    rw [someUpTo?] at h
    split at h
    · cases h
    · next hc =>
      obtain ⟨⟨later, behind⟩, hlater, heq⟩ := Option.map_eq_some_iff.mp h
      obtain ⟨rfl, rfl⟩ := Prod.mk.inj heq
      rw [if_neg hc, upTo?_append_right hlater]
      rfl

/-- An expression or a statement is read in the same way if more follows. -/
theorem TagKind.read?_append_right {kind : TagKind} {text rest : Text} {t : Tag}
    (hkind : kind = .expression ∨ kind = .statement) (h : kind.read? text = some (t, rest))
    (more : Text) : kind.read? (text ++ more) = some (t, rest ++ more) := by
  obtain ⟨inner, hopening, hinner⟩ := Option.bind_eq_some_iff.mp h
  rw [read?, Text.after?_append_right hopening, Option.bind_some]
  rcases hkind with rfl | rfl
  all_goals
    obtain ⟨⟨body, behind⟩, hbody, heq⟩ := Option.map_eq_some_iff.mp hinner
    obtain ⟨rfl, rfl⟩ := Prod.mk.inj heq
    rw [readInner?, Text.someUpTo?_append_right hbody]
    rfl

theorem Text.byteSize_lt_of_find {kinds : List TagKind} {text : Text} {found : Tag.Found}
    (h : Tag.find kinds text = some found) : found.rest.byteSize < text.byteSize := by
  have hpos := Text.byteSize_pos found.tag.content_ne_nil
  have hsize := congrArg Text.byteSize (Tag.eq_of_find h)
  simp only [byteSize_append] at hsize
  omega

namespace Tag

/-- The tag is read where it stands. -/
def Found.Stands (found : Found) : Prop :=
  found.tag.kind.read? (found.tag.content ++ found.rest) = some (found.tag, found.rest)

theorem stands_of_find {kinds : List TagKind} {text : Text} {found : Found}
    (h : find kinds text = some found) : found.Stands := by
  obtain ⟨kind, -, hread⟩ := List.exists_of_findSome?_eq_some (skips_of_find h).2
  rw [Found.Stands, TagKind.kind_of_read? hread]
  exact hread

/-- A tag outside of comments still stands if more follows. -/
theorem Found.Stands.append {found : Found} (h : found.Stands)
    (hkind : found.tag.kind = .expression ∨ found.tag.kind = .statement) (more : Text) :
    Found.Stands { found with rest := found.rest ++ more } := by
  have hread := TagKind.read?_append_right hkind h more
  rw [List.append_assoc] at hread
  exact hread

theorem kind_mem_of_mem_all {kinds : List TagKind} {text : Text} {found : Found}
    (h : found ∈ all kinds text) : found.tag.kind ∈ kinds := by
  fun_induction all kinds text generalizing found with
  | case1 => cases h
  | case2 text first hf _ ih =>
    rcases List.mem_cons.mp h with rfl | h
    · exact kind_mem_of_find hf
    · obtain ⟨later, hlater, rfl⟩ := List.mem_map.mp h
      exact @ih later hlater

end Tag

namespace Buffer

/-! ## Accesses -/

/-- **An access succeeds** if and only if the buffer is made of the pieces that the offsets cut it
into: they lie in the buffer, in order, and between characters. -/
theorem span_eq_ok {buffer : Text} {start stop : Nat} {s : Span} :
    span buffer start stop = .ok s ↔ buffer = s.source ∧ start = s.before.byteSize
      ∧ stop = s.before.byteSize + s.content.byteSize := by
  rw [← Span.ofBytes?_eq_some, span]
  cases Span.ofBytes? buffer start stop with
  | none => simp
  | some t => simp

/-- Half a character is out of range. -/
example : span "é".toList 1 2 = .error .outOfRange := by decide

variable {buffer before content after : Text} {start stop : Nat}

theorem span_append (hbuffer : buffer = before ++ content ++ after)
    (hstart : start = before.byteSize) (hstop : stop = before.byteSize + content.byteSize) :
    span buffer start stop = .ok ⟨before, content, after⟩ :=
  span_eq_ok.mpr ⟨hbuffer, hstart, hstop⟩

theorem slice_append (hbuffer : buffer = before ++ content ++ after)
    (hstart : start = before.byteSize) (hstop : stop = before.byteSize + content.byteSize) :
    slice buffer start stop = .ok content := by
  rw [slice, span_append hbuffer hstart hstop]
  rfl

theorem replace_append (hbuffer : buffer = before ++ content ++ after)
    (hstart : start = before.byteSize) (hstop : stop = before.byteSize + content.byteSize)
    (new : Text) : replace buffer start stop new = .ok (before ++ new ++ after) := by
  rw [replace, span_append hbuffer hstart hstop]
  rfl

variable {kinds : List TagKind} {passed rest : Text}

theorem behind_append (hbuffer : buffer = passed ++ rest) (hstart : start = passed.byteSize) :
    behind buffer start = .ok rest := by
  apply slice_append (by rw [hbuffer, List.append_nil]) hstart
  rw [hbuffer, Text.byteSize_append]

/-- A search finds what is to be found in the rest. -/
theorem search_append (hbuffer : buffer = passed ++ rest) (hstart : start = passed.byteSize) :
    search kinds buffer start
      = .ok ((Tag.find kinds rest).map (Place.of passed.byteSize)) := by
  rw [search, behind_append hbuffer hstart, hstart]
  rfl

theorem search_zero (kinds : List TagKind) (buffer : Text) :
    search kinds buffer 0 = .ok ((Tag.find kinds buffer).map (.of 0)) :=
  search_append (List.nil_append buffer).symm rfl

/-! ## Places -/

section

variable {found : Tag.Found}

theorem append_of_find (h : Tag.find kinds rest = some found) :
    passed ++ rest = passed ++ found.gap ++ found.tag.content ++ found.rest := by
  rw [Tag.eq_of_find h]
  simp only [List.append_assoc]

/-- The text up to the end of a tag that was found. -/
def through (passed : Text) (found : Tag.Found) : Text := passed ++ found.gap ++ found.tag.content

theorem through_append (h : Tag.find kinds rest = some found) :
    passed ++ rest = through passed found ++ found.rest :=
  append_of_find h

theorem tag_of (n : Nat) (found : Tag.Found) : (Place.of n found).tag = found.tag := rfl

theorem start_of (passed : Text) (found : Tag.Found) :
    (Place.of passed.byteSize found).start = (passed ++ found.gap).byteSize := by
  rw [Text.byteSize_append]
  rfl

theorem stop_eq_start (n : Nat) (found : Tag.Found) :
    (Place.of n found).stop = (Place.of n found).start + found.tag.content.byteSize := rfl

theorem stop_of (passed : Text) (found : Tag.Found) :
    (Place.of passed.byteSize found).stop = (through passed found).byteSize := by
  rw [stop_eq_start, start_of, ← Text.byteSize_append]
  rfl

/-- The place of a tag that was found fits the buffer. -/
theorem span_of_find (h : Tag.find kinds rest = some found) (hbuffer : buffer = passed ++ rest) :
    span buffer (Place.of passed.byteSize found).start (Place.of passed.byteSize found).stop
      = .ok (found.span buffer) := by
  have hpieces := hbuffer.trans (append_of_find h)
  rw [Tag.Found.source_span hpieces]
  exact span_append hpieces (start_of passed found)
    (congrArg (· + found.tag.content.byteSize) (start_of passed found))

/-- A tag that stands in a text is a tag of it. -/
theorem isTag_of_stands (h : found.Stands) (before : Text) :
    Span.IsTag ⟨before, found.tag.content, found.rest⟩ := by
  refine ⟨found.tag.kind, found.tag, ?_⟩
  have hfind : Tag.find [found.tag.kind] (found.tag.content ++ found.rest)
      = some ⟨[], found.tag, found.rest⟩ :=
    Tag.find_of_findSome? (by rw [List.findSome?_singleton]; exact h)
  have hsearch : search [found.tag.kind] (before ++ found.tag.content ++ found.rest)
      before.byteSize = _ :=
    search_append (List.append_assoc before found.tag.content found.rest) rfl
  rw [hfind] at hsearch
  exact hsearch

theorem isTag_of_find (h : Tag.find kinds rest = some found) (hbuffer : buffer = passed ++ rest) :
    (found.span buffer).IsTag := by
  rw [Tag.Found.source_span (hbuffer.trans (append_of_find h))]
  exact isTag_of_stands (Tag.stands_of_find h) _

end

/-! ## Loops -/

section

variable {σ α : Type} {turn : Cursor σ → Place → Except Halt (Cursor σ)}
  {last : Cursor σ → Except Halt α} {s : σ} {found : Tag.Found}

theorem left_append (s : σ) (passed rest : Text) :
    Cursor.left ⟨s, passed ++ rest, passed.byteSize⟩ = rest.byteSize := by
  rw [Cursor.left, Text.byteSize_append, Nat.add_sub_cancel_left]

/-- A loop comes to its end where no tag is left. -/
theorem loop_of_find_eq_none (h : Tag.find kinds rest = none) :
    loop kinds turn last ⟨s, passed ++ rest, passed.byteSize⟩
      = last ⟨s, passed ++ rest, passed.byteSize⟩ := by
  rw [loop, search_append rfl rfl, h]
  rfl

/-- A loop takes a turn at the next tag, and goes on if that leaves less than there was. -/
theorem loop_of_find (h : Tag.find kinds rest = some found) :
    loop kinds turn last ⟨s, passed ++ rest, passed.byteSize⟩
      = turn ⟨s, passed ++ rest, passed.byteSize⟩ (.of passed.byteSize found) >>= fun next =>
        if next.left < rest.byteSize then loop kinds turn last next else .error .stuck := by
  rw [loop, search_append rfl rfl, h, left_append]
  rfl

end

/-! ## Comparing two accounts -/

/-- **The account on a buffer is faithful** to the one on texts: it ends in the same way, and an
error only ever blames a tag. -/
structure Faithful {α : Type} (checked : Except Halt α) (result : Except TemplateError α) :
    Prop where
  eq_lift : checked = Halt.lift result
  isTag : ∀ place fault, result = .error (.misuse place fault) → place.IsTag

namespace Faithful

variable {α β : Type} {checked : Except Halt α} {result : Except TemplateError α}

theorem ok (a : α) : Faithful (.ok a) (.ok a) :=
  ⟨rfl, fun _ _ h => by cases h⟩

theorem error {e : TemplateError} (h : ∀ place fault, e ≠ .misuse place fault) :
    Faithful (α := α) (.error (.error e)) (.error e) :=
  ⟨rfl, fun place fault he => absurd (Except.error.inj he) (h place fault)⟩

/-- What needs no offsets is in both accounts. -/
theorem lift (h : ∀ place fault, result = .error (.misuse place fault) → place.IsTag) :
    Faithful (Halt.lift result) result :=
  ⟨rfl, h⟩

/-- Nothing comes after an error. -/
theorem of_error {e : TemplateError} {f : α → Except Halt β} (h : Faithful checked (.error e)) :
    Faithful (checked >>= f) (.error e) := by
  obtain ⟨rfl, htag⟩ := h
  exact ⟨rfl, fun place fault he => htag place fault (congrArg Except.error (Except.error.inj he))⟩

/-- One step after another. -/
theorem bind {f : α → Except Halt β} {g : α → Except TemplateError β} (h : Faithful checked result)
    (hnext : ∀ a, result = .ok a → Faithful (f a) (g a)) :
    Faithful (checked >>= f) (result >>= g) := by
  cases result with
  | error e => exact of_error h
  | ok a =>
    rw [h.eq_lift]
    exact hnext a rfl

theorem map {f : α → β} (h : Faithful checked result) :
    Faithful (checked >>= fun a => pure (f a)) (result.map f) := by
  cases result with
  | error e => exact of_error h
  | ok a =>
    rw [h.eq_lift]
    exact ok (f a)

/-- What comes next in the account on the buffer needs no step in the other. -/
theorem map_of {γ : Type} {r : Except TemplateError γ} {f : γ → β} {g : β → Except Halt α}
    {k : γ → α} {checked : Except Halt β} (h : Faithful checked (r.map f))
    (hg : ∀ b, r = .ok b → g (f b) = .ok (k b)) : Faithful (checked >>= g) (r.map k) := by
  cases r with
  | error e => exact of_error h
  | ok b =>
    rw [h.eq_lift]
    change Faithful (g (f b)) (.ok (k b))
    rw [hg b rfl]
    exact ok (k b)

/-- A step that is only in the account on the buffer. -/
theorem of_ok {b : β} {x : Except Halt β} {f : β → Except Halt α} (hx : x = .ok b)
    (h : Faithful (f b) result) : Faithful (x >>= f) result := by
  rw [hx]
  exact h

theorem ite {p : Prop} [Decidable p] {checked' : Except Halt α} {result' : Except TemplateError α}
    (h : p → Faithful checked result) (h' : ¬p → Faithful checked' result') :
    Faithful (if p then checked else checked') (if p then result else result') := by
  split
  · next hp => exact h hp
  · next hp => exact h' hp

/-- A tag that stands in a buffer is blamed in both accounts. -/
theorem blame {buffer before : Text} {place : Place} {found : Tag.Found} (hstands : found.Stands)
    (hbuffer : buffer = before ++ found.tag.content ++ found.rest)
    (hstart : place.start = before.byteSize)
    (hstop : place.stop = place.start + found.tag.content.byteSize) (fault : SyntaxFault) :
    Faithful (α := α) (Buffer.blame buffer place fault)
      (.error (.misuse (found.span buffer) fault)) := by
  rw [Tag.Found.source_span hbuffer]
  refine of_ok (span_append hbuffer hstart (hstart ▸ hstop)) ⟨rfl, fun place fault h => ?_⟩
  cases h
  exact isTag_of_stands hstands before

/-- So is a tag that was found in what is left of a buffer. -/
theorem blame_of_find {kinds : List TagKind} {buffer passed rest : Text} {found : Tag.Found}
    (h : Tag.find kinds rest = some found) (hbuffer : buffer = passed ++ rest)
    (fault : SyntaxFault) :
    Faithful (α := α) (Buffer.blame buffer (.of passed.byteSize found) fault)
      (.error (.misuse (found.span buffer) fault)) :=
  blame (Tag.stands_of_find h) (hbuffer.trans (append_of_find h)) (start_of passed found) rfl fault

/-- A turn of a loop, and what comes after it. -/
theorem loop {σ : Type} {kinds : List TagKind} {turn : Cursor σ → Place → Except Halt (Cursor σ)}
    {last : Cursor σ → Except Halt α} {s : σ} {passed rest : Text} {found : Tag.Found}
    {step : Except TemplateError β} {c : β → Cursor σ} {g : β → Except TemplateError α}
    (h : Tag.find kinds rest = some found)
    (hturn : Faithful (turn ⟨s, passed ++ rest, passed.byteSize⟩ (.of passed.byteSize found))
      (step.map c))
    (hless : ∀ b, step = .ok b → (c b).left < rest.byteSize)
    (hnext : ∀ b, step = .ok b → Faithful (Buffer.loop kinds turn last (c b)) (g b)) :
    Faithful (Buffer.loop kinds turn last ⟨s, passed ++ rest, passed.byteSize⟩) (step >>= g) := by
  rw [loop_of_find h]
  cases step with
  | error e => exact of_error hturn
  | ok b =>
    rw [hturn.eq_lift]
    change Faithful (if (c b).left < rest.byteSize then _ else _) (g b)
    rw [if_pos (hless b rfl)]
    exact hnext b rfl

end Faithful

end Buffer

end TemplateEngine
