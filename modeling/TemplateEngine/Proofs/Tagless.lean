import TemplateEngine.Proofs.Answers
import TemplateEngine.Proofs.Meaning
import TemplateEngine.Proofs.Rounds
import TemplateEngine.Proofs.Searching
import TemplateEngine.Template

/-!
# Texts without tags

A text without tags is its own rendering (`Template.renders_itself`). Only three kinds of tags
have to be ruled out, since each tag of another kind begins with a statement
(`TagKind.exists_statement`). So where no statement is found, neither the searches of composition
nor the one for comment sections find anything.
-/

namespace TemplateEngine

/-! ## Tags that are statements -/

namespace Text

variable {text stop before rest : Text}

theorem newline_not_mem_of_upTo? (h : upTo? text stop = some (before, rest)) :
    '\n' ∉ before := by
  induction text generalizing before with
  | nil =>
    rw [upTo?] at h
    split at h
    · obtain ⟨rfl, -⟩ := Prod.mk.inj (Option.some.inj h)
      exact List.not_mem_nil
    · cases h
  | cons c text ih =>
    rw [upTo?] at h
    split at h
    · obtain ⟨rfl, -⟩ := Prod.mk.inj (Option.some.inj h)
      exact List.not_mem_nil
    · split at h
      · cases h
      · next hc =>
        obtain ⟨⟨later, _⟩, hlater, heq⟩ := Option.map_eq_some_iff.mp h
        obtain ⟨rfl, rfl⟩ := Prod.mk.inj heq
        exact List.not_mem_cons_of_ne_of_not_mem (Ne.symm hc) (ih hlater)

theorem newline_not_mem_of_someUpTo? (h : someUpTo? text stop = some (before, rest)) :
    '\n' ∉ before := by
  cases text with
  | nil => cases h
  | cons c text =>
    rw [someUpTo?] at h
    split at h
    · cases h
    · next hc =>
      obtain ⟨⟨later, _⟩, hlater, heq⟩ := Option.map_eq_some_iff.mp h
      obtain ⟨rfl, rfl⟩ := Prod.mk.inj heq
      exact List.not_mem_cons_of_ne_of_not_mem (Ne.symm hc) (newline_not_mem_of_upTo? hlater)

/-- Some occurrence of `stop` is reached if there is one on the line. -/
theorem isSome_upTo? (h : '\n' ∉ before) : (upTo? (before ++ stop ++ rest) stop).isSome := by
  induction before with
  | nil =>
    rw [List.nil_append]
    cases hrest : stop ++ rest with
    | nil =>
      obtain ⟨rfl, rfl⟩ := List.append_eq_nil_iff.mp hrest
      rfl
    | cons c text =>
      rw [upTo?, ← hrest, after?_append]
      rfl
  | cons c before ih =>
    obtain ⟨hc, hbefore⟩ := not_or.mp (mt List.mem_cons.mpr h)
    rw [List.cons_append, List.cons_append, upTo?]
    split
    · rfl
    · rw [if_neg (Ne.symm hc), Option.isSome_map]
      exact ih hbefore

theorem isSome_someUpTo? (hne : before ≠ []) (h : '\n' ∉ before) :
    (someUpTo? (before ++ stop ++ rest) stop).isSome := by
  obtain ⟨c, before, rfl⟩ := List.exists_cons_of_ne_nil hne
  obtain ⟨hc, hbefore⟩ := not_or.mp (mt List.mem_cons.mpr h)
  rw [List.cons_append, List.cons_append, someUpTo?, if_neg (Ne.symm hc), Option.isSome_map]
  exact isSome_upTo? hbefore

end Text

/-- A quoted text stands on one line. -/
theorem Quoted.newline_not_mem_of_read? {upTo : Text → Text → Option (Text × Text)}
    {stop text rest : Text} {q : Quoted}
    (hupTo : ∀ {text stop before rest : Text}, upTo text stop = some (before, rest) → '\n' ∉ before)
    (h : read? upTo stop text = some (q, rest)) : '\n' ∉ q.content := by
  cases text with
  | nil => cases h
  | cons c text =>
    rw [read?] at h
    split at h
    · next hc =>
      obtain ⟨⟨quoted, _⟩, hquoted, heq⟩ := Option.map_eq_some_iff.mp h
      obtain ⟨rfl, rfl⟩ := Prod.mk.inj heq
      have hquote : '\n' ≠ c := by rcases hc with rfl | rfl <;> decide
      simp [content, hquote, hupTo hquoted]
    · cases h

namespace TagKind

/-- What a tag begins with if it has the marks of a statement: a word, and perhaps an argument on
the same line. -/
theorem exists_statement_of_word {content : Text} (word argument more : Text) (hne : word ≠ [])
    (hword : '\n' ∉ word) (hargument : '\n' ∉ argument)
    (hcontent : content
      = statement.opening ++ (word ++ (argument ++ (statement.closing ++ more)))) :
    ∃ body more, body ≠ [] ∧ '\n' ∉ body
      ∧ content = statement.opening ++ (body ++ statement.closing ++ more) := by
  refine ⟨word ++ argument, more, List.append_ne_nil_of_left_ne_nil hne _, ?_, ?_⟩
  · exact fun hmem => (List.mem_append.mp hmem).elim hword hargument
  · rw [hcontent, List.append_assoc, List.append_assoc]

/-- Every tag between the marks of a statement begins with a statement: what stands up to the
first end of such a mark is on one line. -/
theorem exists_statement {kind : TagKind}
    (hkind : kind ∉ [TagKind.expression, .statement, .hashComment]) {text rest : Text} {t : Tag}
    (h : kind.read? text = some (t, rest)) :
    ∃ body more, body ≠ [] ∧ '\n' ∉ body
      ∧ t.content = statement.opening ++ (body ++ statement.closing ++ more) := by
  have hname {name : Text} (hname : name.IsWord) : '\n' ∉ name := hname.not_mem (by decide)
  obtain ⟨inner, -, hinner⟩ := Option.bind_eq_some_iff.mp h
  cases kind with
  | expression | statement | hashComment => exact absurd hkind (by decide)
  | blockComment =>
    rw [readInner?] at hinner
    split at hinner
    · obtain ⟨body, rfl, -⟩ := eq_of_readSection? hinner
      exact exists_statement_of_word "comment".toList [] _ (by decide) (by decide) (by decide) rfl
    · obtain ⟨⟨label, _⟩, hlabel, hsection⟩ := Option.bind_eq_some_iff.mp hinner
      obtain ⟨body, rfl, -⟩ := eq_of_readSection? hsection
      refine exists_statement_of_word "comment ".toList label.content (body ++ Tag.endComment)
        (by decide) (by decide)
        (Quoted.newline_not_mem_of_read? Text.newline_not_mem_of_upTo? hlabel) ?_
      rw [Tag.content, Tag.inner, List.append_assoc, List.append_assoc]
      rfl
  | inherits =>
    rw [readInner?] at hinner
    obtain ⟨⟨path, _⟩, hpath, heq⟩ := Option.map_eq_some_iff.mp hinner
    obtain ⟨rfl, -⟩ := Prod.mk.inj heq
    exact exists_statement_of_word "extends ".toList path.content [] (by decide) (by decide)
      (Quoted.newline_not_mem_of_read? Text.newline_not_mem_of_someUpTo? hpath) rfl
  | inclusion =>
    rw [readInner?] at hinner
    obtain ⟨⟨path, _⟩, hpath, heq⟩ := Option.map_eq_some_iff.mp hinner
    obtain ⟨rfl, -⟩ := Prod.mk.inj heq
    exact exists_statement_of_word "include ".toList path.content [] (by decide) (by decide)
      (Quoted.newline_not_mem_of_read? Text.newline_not_mem_of_someUpTo? hpath) rfl
  | block =>
    obtain ⟨name, hword, rfl⟩ := exists_of_read?_block h
    exact exists_statement_of_word "block ".toList name [] (by decide) (by decide) (hname hword) rfl
  | endBlock =>
    obtain ⟨name, hword, rfl⟩ := exists_of_read?_endBlock h
    cases name with
    | none =>
      exact exists_statement_of_word "endblock".toList [] [] (by decide) (by decide) (by decide) rfl
    | some name =>
      exact exists_statement_of_word "endblock ".toList name [] (by decide) (by decide)
        (hname (hword name rfl)) rfl

/-- So a statement is read where such a tag is. -/
theorem isSome_read?_statement {kind : TagKind}
    (hkind : kind ∉ [TagKind.expression, .statement, .hashComment]) {text rest : Text} {t : Tag}
    (h : kind.read? text = some (t, rest)) : (statement.read? text).isSome := by
  obtain ⟨body, more, hne, hline, hcontent⟩ := exists_statement hkind h
  rw [eq_of_read? h, hcontent, List.append_assoc, read?, Text.after?_append, Option.bind_some,
    readInner?, Option.isSome_map, List.append_assoc]
  exact Text.isSome_someUpTo? hne hline

end TagKind

/-! ## Searches -/

/-- No expression, no statement and no hash comment is found in the text. -/
def Text.Tagless (text : Text) : Prop :=
  ∀ kind ∈ [TagKind.expression, .statement, .hashComment], Tag.find [kind] text = none

/-- Where no statement begins no tag with the marks of a statement does. -/
theorem Tag.Skips.of_statement {kind : TagKind}
    (hkind : kind ∉ [TagKind.expression, .statement, .hashComment]) {passed rest : Text}
    (h : Skips [.statement] passed rest) : Skips [kind] passed rest := by
  induction passed with
  | nil => trivial
  | cons c passed ih =>
    obtain ⟨hhere, hpassed⟩ := h
    refine ⟨?_, ih hpassed⟩
    rw [List.findSome?_singleton] at hhere ⊢
    refine Option.eq_none_iff_forall_ne_some.mpr fun found hfound => ?_
    obtain ⟨t, after⟩ := found
    have hsome := TagKind.isSome_read?_statement hkind hfound
    rw [hhere] at hsome
    cases hsome

namespace Text.Tagless

variable {text : Text}

/-- No tag of any kind is found. -/
theorem find_eq_none (h : text.Tagless) (kind : TagKind) : Tag.find [kind] text = none := by
  by_cases hkind : kind ∈ [TagKind.expression, .statement, .hashComment]
  · exact h kind hkind
  · have hstatement : Tag.Skips [.statement] text [] :=
      Tag.find_eq_none.mp (h .statement (by decide))
    exact Tag.find_eq_none.mpr (hstatement.of_statement hkind)

theorem split_eq (h : text.Tagless) : Tag.split Outline.tagKinds text = ([], text) := by
  have hexpression := Tag.find_eq_none.mp (h.find_eq_none .expression)
  have hstatement := Tag.find_eq_none.mp (h.find_eq_none .statement)
  refine Tag.split_of_find_eq_none (Tag.find_eq_none.mpr ?_)
  clear h
  induction text with
  | nil => trivial
  | cons c text ih =>
    refine ⟨?_, ih hexpression.2 hstatement.2⟩
    have hhere := hexpression.1
    rw [List.findSome?_singleton] at hhere
    rw [Outline.tagKinds, List.findSome?_cons, hhere]
    exact hstatement.1

end Text.Tagless

/-! ## Phases -/

namespace Loader

/-- Composition changes nothing. -/
theorem round_of_tagless {a : Ascent} (h : a.text.Tagless) (l : Loader) :
    l.round a = .ok (.finished ⟨a.text, a.loads.eraseDups⟩) := by
  have hincludes : l.includes a.text = .ok ⟨a.text, []⟩ :=
    splice_of_find_eq_none _ (h.find_eq_none .inclusion)
  have hreplace : a.overrides.replaceIn [] a.text = .ok a.text := by
    rw [Overrides.replaceIn]
    split
    · rfl
    · next hfound => cases (h.find_eq_none .block).symm.trans hfound
  have hfinish : l.finish a.overrides a.loads a.text = .ok ⟨a.text, a.loads.eraseDups⟩ := by
    simp [finish, hincludes, hreplace, bind, Except.bind, pure, Except.pure]
  rw [round, h.find_eq_none .inherits, hfinish]
  rfl

end Loader

/-- Compilation makes a single literal of the text, or nothing. -/
theorem Plan.compile_of_tagless {text : Text} (h : text.Tagless) (o : Options) :
    Plan.compile o text = .ok ⟨if text = [] then #[] else #[.literal text]⟩ := by
  have hfree : text.CommentFree := ⟨h.find_eq_none .hashComment, h.find_eq_none .blockComment⟩
  have hmarks : Outline.marks o text = Mark.ofText text := by
    rw [Outline.marks, h.split_eq]
    simp [Mark.ofTags, Options.keepBetween]
  rw [compile, hfree.stripComments, read, hmarks]
  cases text with
  | nil => rfl
  | cons c text => rfl

namespace Template

/-- The fragments of a template that is a single literal, or nothing. -/
theorem collect?_of_literal (text : Text) (o : Options) (context : Context) (steps : Nat) :
    Source.collect? (steps + 2)
        (fragments ⟨⟨if text = [] then #[] else #[.literal text]⟩, o⟩ context)
      = some (if text = [] then [] else [text], none) := by
  cases text <;> rfl

/-- **A text without tags is its own rendering.** Whatever the options are, it compiles to one and
the same template under all resolvers, since composition hands it on as it is. In every context
this template is rendered as the text, which is its only fragment unless it is empty. -/
theorem renders_itself {text : Text} (h : text.Tagless) (o : Options) :
    ∃ t : Template,
      (∀ (l : Loader) (origin : Option Text), ∃ composition,
        l.Composes (.start origin text) (.ok composition) ∧ composition.source = text
          ∧ Plan.compile o composition.source = .ok t.plan)
      ∧ (∀ (r : Resolver) (origin : Option Text), compile r o origin text = .ok t)
      ∧ ∀ (context : Context) (steps : Nat), t.render? (steps + 2) context = some (.ok text)
        ∧ Source.collect? (steps + 2) (t.fragments context)
          = some (if text = [] then [] else [text], none) := by
  have hplan := Plan.compile_of_tagless h o
  refine ⟨⟨⟨if text = [] then #[] else #[.literal text]⟩, o⟩, ?_, ?_, ?_⟩
  · intro l origin
    exact ⟨⟨text, _⟩, .finished (l.round_of_tagless (a := .start origin text) h), rfl, hplan⟩
  · intro r origin
    have hcomposes := r.loader.round_of_tagless (a := .start origin text) h
    rw [compile, Resolver.composes_iff.mp (.finished hcomposes)]
    simp [Ascent.start, hplan, bind, Except.bind, pure, Except.pure]
  · intro context steps
    have hcollect := collect?_of_literal text o context steps
    refine ⟨?_, hcollect⟩
    rw [render?, Source.join?, hcollect]
    cases text <;> simp

/-- Braces, marks without the right blanks, and a tag that is broken off. -/
theorem renders_itself_stray :
    let text := "\x7b\x7bx\x7d\x7d \x7b% extends 'a'\n%\x7d \x7b#\x7b %\x7d é \x7b% %\x7d".toList
    Text.Tagless text ∧ ∃ t, compile .empty {} none text = .ok t
      ∧ ∀ context, t.render? 2 context = some (.ok text)
        ∧ Source.collect? 2 (t.fragments context) = some ([text], none) := by
  intro text
  have h : Text.Tagless text := by
    intro kind hkind
    have hnone : ∀ kind ∈ [TagKind.expression, .statement, .hashComment],
        (Tag.find [kind] text).isNone := by
      decide +kernel
    exact Option.isNone_iff_eq_none.mp (hnone kind hkind)
  obtain ⟨t, -, hcompile, hrender⟩ := renders_itself h {}
  exact ⟨h, t, hcompile .empty none, fun context => hrender context 0⟩

end Template

end TemplateEngine
