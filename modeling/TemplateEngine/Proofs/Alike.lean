import TemplateEngine.Outline.Endings
import TemplateEngine.Proofs.Matching
import TemplateEngine.Proofs.Meaning

/-!
# Texts that differ in their end tags

Two texts are *alike* if they differ in the words of end tags only (`Text.Alike`). Nothing that is
searched for in a composed template tells them apart: no word that ends a construct holds a brace, a
quote or a newline, nor stands where an opening or a closing could be mistaken for it
(`Text.Steady`). So where a tag stands in one of the texts, one stands in the other
(`Text.Alike.exists_matches`), and what a search passes over in one, it passes over in the other
(`Text.Alike.skips`).

The tags themselves are read from their own characters, so a template with its end tags replaced is
cut at the same places (`Outline.split_matchEndsFrom`).
-/

namespace TemplateEngine

/-! ## Words that end constructs -/

namespace Construct

/-- The words are made of letters. -/
theorem isLower_of_mem_ending {construct : Construct} {c : Char} (h : c ∈ construct.ending) :
    c.isLower = true := by
  have hall : construct.ending.all Char.isLower = true := by cases construct <;> decide
  exact List.all_eq_true.mp hall c h

theorem not_mem_ending {construct : Construct} {c : Char} (hc : c.isLower = false) :
    c ∉ construct.ending := by
  intro h
  rw [isLower_of_mem_ending h] at hc
  cases hc

end Construct

namespace Text

/-- The texts differ at a place that both of them have. -/
def clashes : Text → Text → Bool
  | c :: s, d :: t => c != d || clashes s t
  | _, _ => false

theorem append_ne_of_clashes {s t : Text} (h : clashes s t = true) (x y : Text) :
    s ++ x ≠ t ++ y := by
  induction s generalizing t with
  | nil => cases h
  | cons c s ih =>
    cases t with
    | nil => cases h
    | cons d t =>
      intro heq
      obtain ⟨hcd, hrest⟩ := List.cons.inj heq
      simp only [clashes, hcd, bne_self_eq_false, Bool.false_or] at h
      exact ih h hrest

/-- No part at the end of a pattern can begin where a word stands. -/
def avoids (word : Text) : (pattern : Text) → Bool
  | [] => true
  | c :: pattern => clashes (c :: pattern) word && avoids word pattern

/-- A pattern that no word that ends a construct can be a part of. -/
def Steady (pattern : Text) : Prop :=
  ∀ construct : Construct, avoids construct.ending pattern = true

theorem steady_opening {kind : TagKind} (h : kind ≠ .endBlock) : Steady kind.opening := by
  intro construct
  cases kind with
  | endBlock => exact absurd rfl h
  | _ => cases construct <;> decide

theorem steady_closing (kind : TagKind) : Steady kind.closing := by
  intro construct
  cases kind <;> cases construct <;> decide

theorem steady_bareClosing : Steady TagKind.bareClosing := by
  intro construct
  cases construct <;> decide

theorem steady_endComment : Steady Tag.endComment := by
  intro construct
  cases construct <;> decide

theorem steady_quote {quote : Char} (h : Character.IsQuote quote) : Steady [quote] := by
  intro construct
  rcases h with rfl | rfl <;> cases construct <;> decide

/-! ## Alike texts -/

/-- Two texts differ at most in words that end constructs. -/
inductive Alike : Text → Text → Prop
  | nil : Alike [] []
  | cons (c : Char) {s t : Text} (h : Alike s t) : Alike (c :: s) (c :: t)
  | ending (a b : Construct) {s t : Text} (h : Alike s t) : Alike (a.ending ++ s) (b.ending ++ t)

namespace Alike

variable {s t x y front back pattern rest : Text}

theorem refl (s : Text) : Alike s s := by
  induction s with
  | nil => exact .nil
  | cons c s ih => exact .cons c ih

theorem symm (h : Alike s t) : Alike t s := by
  induction h with
  | nil => exact .nil
  | cons c _ ih => exact .cons c ih
  | ending a b _ ih => exact .ending b a ih

theorem append (h : Alike s t) (h' : Alike x y) : Alike (s ++ x) (t ++ y) := by
  induction h with
  | nil => exact h'
  | cons c _ ih => exact .cons c ih
  | ending a b _ ih =>
    rw [List.append_assoc, List.append_assoc]
    exact .ending a b ih

theorem ne_nil (h : Alike s t) (hs : s ≠ []) : t ≠ [] := by
  cases h with
  | nil => exact hs
  | cons c => exact List.cons_ne_nil _ _
  | ending a b => exact List.cons_ne_nil _ _

/-- What is no letter stands in both of the texts or in none. -/
theorem not_mem (h : Alike s t) {c : Char} (hc : c.isLower = false) (hs : c ∉ s) : c ∉ t := by
  induction h with
  | nil => exact hs
  | cons d _ ih =>
    simp only [List.mem_cons, not_or] at hs ⊢
    exact ⟨hs.1, ih hs.2⟩
  | ending a b _ ih =>
    simp only [List.mem_append, not_or] at hs ⊢
    exact ⟨Construct.not_mem_ending hc, ih hs.2⟩

/-- A text is taken apart where no letter follows, and the one alike comes apart at the same
place. -/
theorem split (h : Alike (front ++ back) t) (hback : ∀ c ∈ back.head?, c.isLower = false) :
    ∃ front' back', t = front' ++ back' ∧ Alike front front' ∧ Alike back back' := by
  generalize htext : front ++ back = text at h
  induction h generalizing front with
  | nil =>
    obtain ⟨rfl, rfl⟩ := List.append_eq_nil_iff.mp htext
    exact ⟨[], [], rfl, .nil, .nil⟩
  | @cons c s t h ih =>
    cases front with
    | nil =>
      subst htext
      exact ⟨[], c :: t, rfl, .nil, .cons c h⟩
    | cons d front =>
      obtain ⟨rfl, hrest⟩ := List.cons.inj htext
      obtain ⟨front', back', rfl, hfront, hback⟩ := ih hrest
      exact ⟨d :: front', back', rfl, .cons d hfront, hback⟩
  | @ending a b s t h ih =>
    rcases List.append_eq_append_iff.mp htext with ⟨within, hword, hbehind⟩ | ⟨within, rfl, hbehind⟩
    · -- a word is not cut, since a letter would follow
      cases within with
      | nil =>
        obtain ⟨front', back', rfl, hfront, hback⟩ := @ih [] hbehind
        rw [List.append_nil] at hword
        refine ⟨b.ending ++ front', back', by rw [List.append_assoc], ?_, hback⟩
        rw [← hword, ← List.append_nil a.ending]
        exact .ending a b hfront
      | cons c within =>
        have hmem : c ∈ a.ending := by simp [hword]
        have hno : c.isLower = false := hback c (by rw [hbehind]; rfl)
        exact (Construct.not_mem_ending hno hmem).elim
    · obtain ⟨front', back', rfl, hfront, hback⟩ := ih hbehind.symm
      exact ⟨b.ending ++ front', back', by rw [List.append_assoc], .ending a b hfront, hback⟩

/-- A pattern stands at the front of both of the texts or of none. -/
theorem eq_append (hpattern : Steady pattern) (h : Alike (pattern ++ rest) t) :
    ∃ rest', t = pattern ++ rest' ∧ Alike rest rest' := by
  induction pattern generalizing t with
  | nil => exact ⟨t, rfl, h⟩
  | cons c pattern ih =>
    have hsteady : Steady pattern := fun construct =>
      (Bool.and_eq_true_iff.mp (hpattern construct)).2
    generalize htext : c :: pattern ++ rest = text at h
    cases h with
    | nil => cases htext
    | cons d h =>
      obtain ⟨rfl, rfl⟩ := List.cons.inj htext
      obtain ⟨rest', rfl, hrest⟩ := ih hsteady h
      exact ⟨rest', rfl, hrest⟩
    | ending a b h =>
      -- the pattern would stand where the word stands
      have hclash := (Bool.and_eq_true_iff.mp (hpattern a)).1
      exact absurd htext (append_ne_of_clashes hclash rest _)

end Alike

end Text

/-! ## Tags in alike texts -/

/-- The kinds of tags that are looked for in a composed template. -/
def TagKind.composed : List TagKind := [.expression, .statement, .hashComment, .blockComment]

namespace Text.Alike

variable {kind : TagKind} {kinds : List TagKind} {s t x y content rest : Text}
  {argument : Option Text}

theorem isLower_head?_closing (kind : TagKind) (rest : Text) :
    ∀ c ∈ (kind.closing ++ rest).head?, c.isLower = false := by
  intro c hc
  cases kind <;> cases hc <;> decide

theorem isLower_head?_endComment (rest : Text) :
    ∀ c ∈ (Tag.endComment ++ rest).head?, c.isLower = false := by
  intro c hc
  cases hc
  decide

/-- **Where a tag stands in one of the texts, one stands in the other.** -/
theorem exists_matches (h : Alike (content ++ rest) t) (hm : kind.Matches content argument)
    (hkind : kind ∈ TagKind.composed) : ∃ content' rest' argument',
      t = content' ++ rest' ∧ kind.Matches content' argument' := by
  have hopening : Steady kind.opening := steady_opening (by rintro rfl; revert hkind; decide)
  cases hm with
  | @inside _ body hone hbody =>
    -- taken apart from the left: openings and closings are the same, and the rest is alike
    simp only [List.append_assoc] at h
    obtain ⟨_, rfl, hbehind⟩ := h.eq_append hopening
    obtain ⟨body', _, rfl, hsame, hclosing⟩ := hbehind.split (isLower_head?_closing kind rest)
    obtain ⟨rest', rfl, -⟩ := hclosing.eq_append (steady_closing kind)
    refine ⟨kind.opening ++ (body' ++ kind.closing), rest', none, by simp, .inside hone ?_⟩
    exact ⟨hsame.ne_nil hbody.1, hsame.not_mem (by decide) hbody.2⟩
  | @comment body =>
    simp only [List.append_assoc] at h
    obtain ⟨_, rfl, hinner⟩ := h.eq_append hopening
    obtain ⟨_, rfl, hbody⟩ := hinner.eq_append steady_bareClosing
    obtain ⟨body', _, rfl, -, hend⟩ := hbody.split (isLower_head?_endComment rest)
    obtain ⟨rest', rfl, -⟩ := hend.eq_append steady_endComment
    exact ⟨_, rest', none, by simp only [List.append_assoc], @TagKind.Matches.comment body'⟩
  | @labelled quote label body hquote hlabel =>
    have hnoLetter : quote.isLower = false := by rcases hquote with rfl | rfl <;> decide
    have htext : TagKind.blockComment.opening ++ (quote :: label ++ [quote]
          ++ TagKind.blockComment.closing ++ body ++ Tag.endComment) ++ rest
        = TagKind.blockComment.opening ++ ([quote] ++ (label ++ ([quote]
          ++ (TagKind.blockComment.closing ++ (body ++ (Tag.endComment ++ rest)))))) := by simp
    rw [htext] at h
    obtain ⟨_, rfl, hinner⟩ := h.eq_append hopening
    obtain ⟨_, rfl, hquoted⟩ := hinner.eq_append (steady_quote hquote)
    obtain ⟨label', _, rfl, hsame, hlast⟩ := hquoted.split (by
      intro c hc
      obtain rfl := Option.mem_some.mp hc
      exact hnoLetter)
    obtain ⟨_, rfl, hclosing⟩ := hlast.eq_append (steady_quote hquote)
    obtain ⟨_, rfl, hbody⟩ := hclosing.eq_append (steady_closing _)
    obtain ⟨body', _, rfl, -, hend⟩ := hbody.split (isLower_head?_endComment rest)
    obtain ⟨rest', rfl, -⟩ := hend.eq_append steady_endComment
    have hlabel' := hsame.not_mem (by decide) hlabel
    exact ⟨_, rest', none, by simp, @TagKind.Matches.labelled quote label' body' hquote hlabel'⟩
  | path hone => rcases hone with rfl | rfl <;> exact absurd hkind (by decide)
  | name hone => rcases hone with rfl | rfl <;> exact absurd hkind (by decide)
  | bare => exact absurd hkind (by decide)

theorem read?_eq_none (h : Alike s t) (hkind : kind ∈ TagKind.composed) (hs : kind.read? s = none) :
    kind.read? t = none := by
  refine Option.eq_none_iff_forall_ne_some.mpr fun ⟨tag, rest⟩ hread => ?_
  have hsame := h.symm
  rw [TagKind.eq_of_read? hread] at hsame
  obtain ⟨content, rest', argument, rfl, hmatches⟩ :=
    hsame.exists_matches (TagKind.matches_of_read? hread) hkind
  obtain ⟨_, _, hsome, -⟩ := TagKind.exists_read? hmatches rest'
  cases hsome.symm.trans hs

/-- **What is passed over in one of the texts is passed over in the other.** -/
theorem skips (h : Alike s t) (h' : Alike x y) (hkinds : ∀ kind ∈ kinds, kind ∈ TagKind.composed)
    (hs : Tag.Skips kinds s x) : Tag.Skips kinds t y := by
  induction h with
  | nil => exact hs
  | cons c h ih =>
    refine ⟨List.findSome?_eq_none_iff.mpr fun kind hkind => ?_, ih hs.2⟩
    have hsame : Alike (c :: _ ++ x) (c :: _ ++ y) := .cons c (h.append h')
    exact hsame.read?_eq_none (hkinds kind hkind) (List.findSome?_eq_none_iff.mp hs.1 kind hkind)
  | ending a b _ ih =>
    -- a tag begins with a brace, so none begins in a word
    refine Tag.skips_append.mpr ⟨?_, ih (Tag.skips_append.mp hs).2⟩
    exact Tag.skips_of_not_mem (Construct.not_mem_ending (by decide)) _

theorem find_eq_none (h : Alike s t) (hkinds : ∀ kind ∈ kinds, kind ∈ TagKind.composed)
    (hs : Tag.find kinds s = none) : Tag.find kinds t = none :=
  Tag.find_eq_none.mpr (h.skips .nil hkinds (Tag.find_eq_none.mp hs))

theorem commentFree (h : Alike s t) (hs : s.CommentFree) : t.CommentFree :=
  ⟨h.find_eq_none (by decide) hs.1, h.find_eq_none (by decide) hs.2⟩

end Text.Alike

/-! ## Templates with their end tags replaced -/

namespace Directive

variable {body : Text} {construct : Construct}

/-- An end tag holds the word that ends its construct and no more. -/
theorem eq_ending (h : (ofBody body).ends? = some construct) : body = construct.ending := by
  rw [ofBody] at h
  split at h
  · next directive hlookup =>
    obtain ⟨front, back, hentry, -⟩ := List.lookup_eq_some_iff.mp hlookup
    have hmem : (body, directive) ∈ alone := hentry ▸ List.mem_append_right _ List.mem_cons_self
    simp only [alone, List.mem_cons, List.not_mem_nil, or_false, Prod.mk.injEq] at hmem
    rcases hmem with ⟨rfl, rfl⟩ | ⟨rfl, rfl⟩ | ⟨rfl, rfl⟩ | ⟨rfl, rfl⟩ | ⟨rfl, rfl⟩ | ⟨rfl, rfl⟩
    all_goals cases h <;> rfl
  · -- a word with an argument ends no construct
    generalize hfirst : withArgument.findSome? _ = first at h
    cases first with
    | none => cases h
    | some directive =>
      obtain ⟨⟨word, make⟩, hmem, hmake⟩ := List.exists_of_findSome?_eq_some hfirst
      obtain ⟨argument, -, rfl⟩ := Option.map_eq_some_iff.mp hmake
      simp only [withArgument, List.mem_cons, List.not_mem_nil, or_false, Prod.mk.injEq] at hmem
      rcases hmem with ⟨-, rfl⟩ | ⟨-, rfl⟩ | ⟨-, rfl⟩ | ⟨-, rfl⟩ | ⟨-, rfl⟩ | ⟨-, rfl⟩ | ⟨-, rfl⟩
        | ⟨-, rfl⟩
      all_goals cases h

/-- A statement stays as it is, unless it is an end tag and becomes another one. -/
theorem matchEnd_cases (opened : List Construct) (body : Text) : matchEnd opened body = body
    ∨ ∃ a b : Construct, body = a.ending ∧ matchEnd opened body = b.ending := by
  unfold matchEnd
  split
  · next a b _ hends => exact .inr ⟨a, b, eq_ending hends, rfl⟩
  · exact .inl rfl

end Directive

namespace Tag

variable {t : Tag} {rest : Text}

theorem alike_matchEnd (opened : List Construct) (t : Tag) :
    t.content.Alike (t.matchEnd opened).content := by
  cases t with
  | statement body =>
    have hbody : body.Alike (Directive.matchEnd opened body) := by
      rcases Directive.matchEnd_cases opened body with hsame | ⟨a, b, hbody, hended⟩
      · rw [hsame]
        exact .refl body
      · rw [hended, hbody, ← List.append_nil a.ending, ← List.append_nil b.ending]
        exact .ending a b .nil
    exact (Text.Alike.refl TagKind.statement.opening).append (hbody.append (.refl _))
  | _ => exact .refl _

/-- An expression or a statement is read from its own characters. -/
theorem read?_content (hkind : t.kind = .expression ∨ t.kind = .statement)
    (h : t.kind.read? (t.content ++ rest) = some (t, rest)) :
    t.kind.read? t.content = some (t, []) := by
  obtain ⟨first, after, hread, -⟩ := TagKind.exists_read? (TagKind.matches_of_read? h) []
  rw [List.append_nil] at hread
  have hsame := TagKind.read?_append_right hkind hread rest
  rw [h] at hsame
  obtain ⟨rfl, hafter⟩ := Prod.mk.inj (Option.some.inj hsame)
  obtain rfl := List.self_eq_append_left.mp hafter
  exact hread

theorem read?_content_ending (construct : Construct) :
    TagKind.statement.read? (statement construct.ending).content
      = some (statement construct.ending, []) := by
  cases construct <;> decide

/-- What is read from its own characters is found whatever follows. An expression is not mistaken
for a statement, nor the other way round. -/
theorem findSome?_read? (hkind : t.kind = .expression ∨ t.kind = .statement)
    (h : t.kind.read? t.content = some (t, [])) (behind : Text) :
    Outline.tagKinds.findSome? (·.read? (t.content ++ behind)) = some (t, behind) := by
  have hread := TagKind.read?_append_right hkind h behind
  rw [List.nil_append] at hread
  rcases hkind with hk | hk
  · rw [hk] at hread
    rw [Outline.tagKinds, List.findSome?_cons, hread]
  · have hother : TagKind.expression.read? (t.content ++ behind) = none := by
      rw [content, hk]
      rfl
    rw [hk] at hread
    rw [Outline.tagKinds, List.findSome?_cons, hother, List.findSome?_cons, hread]

/-- A tag is read where it has been replaced by one with another end. -/
theorem findSome?_read?_matchEnd
    (h : Outline.tagKinds.findSome? (·.read? (t.content ++ rest)) = some (t, rest))
    (opened : List Construct) (behind : Text) :
    Outline.tagKinds.findSome? (·.read? ((t.matchEnd opened).content ++ behind))
      = some (t.matchEnd opened, behind) := by
  obtain ⟨kind, hmem, hread⟩ := List.exists_of_findSome?_eq_some h
  obtain rfl := TagKind.kind_of_read? hread
  have hkind : t.kind = .expression ∨ t.kind = .statement := by
    simpa [Outline.tagKinds] using hmem
  have hsame := findSome?_read? hkind (read?_content hkind hread) behind
  cases t with
  | statement body =>
    rw [matchEnd]
    rcases Directive.matchEnd_cases opened body with heq | ⟨a, b, -, heq⟩
    · rw [heq]
      exact hsame
    · rw [heq]
      exact findSome?_read? (.inr rfl) (read?_content_ending b) behind
  | _ => exact hsame

end Tag

namespace Outline

/-- The tags of a template with its end tags replaced. -/
def matchTags : (opened : List Construct) → List Tag.Found → (last : Text) → List Tag.Found
  | _, [], _ => []
  | opened, found :: tags, last =>
    ⟨found.gap, found.tag.matchEnd opened, matchEndsFrom (found.openBehind opened) tags last⟩
      :: matchTags (found.openBehind opened) tags last

theorem alike_matchEndsFrom (opened : List Construct) (text : Text) :
    text.Alike (matchEndsFrom opened (Tag.split tagKinds text).1 (Tag.split tagKinds text).2) := by
  fun_induction Tag.split tagKinds text generalizing opened with
  | case1 text => exact .refl text
  | case2 text found hfind _ ih =>
    rw [matchEndsFrom]
    nth_rewrite 1 [Tag.eq_of_find hfind]
    exact ((Text.Alike.refl found.gap).append (found.tag.alike_matchEnd opened)).append (ih _)

/-- **A template with its end tags replaced is cut at the same places.** -/
theorem split_matchEndsFrom (opened : List Construct) (text : Text) :
    Tag.split tagKinds
        (matchEndsFrom opened (Tag.split tagKinds text).1 (Tag.split tagKinds text).2)
      = (matchTags opened (Tag.split tagKinds text).1 (Tag.split tagKinds text).2,
        (Tag.split tagKinds text).2) := by
  fun_induction Tag.split tagKinds text generalizing opened with
  | case1 text hnone => exact Tag.split_of_find_eq_none hnone
  | case2 text found hfind _ ih =>
    obtain ⟨hskips, hread⟩ := Tag.skips_of_find hfind
    have hbehind := (found.tag.alike_matchEnd opened).append
      (alike_matchEndsFrom (found.openBehind opened) found.rest)
    have hskips' := (Text.Alike.refl found.gap).skips hbehind (by decide) hskips
    have hfind' := Tag.find_append hskips'
    rw [Tag.find_of_findSome? (Tag.findSome?_read?_matchEnd hread opened _), Option.map_some,
      Tag.Found.past, List.append_nil] at hfind'
    rw [matchEndsFrom, List.append_assoc, Tag.split_of_find hfind', ih, matchTags]

end Outline

end TemplateEngine
