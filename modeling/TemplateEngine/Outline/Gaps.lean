import TemplateEngine.Outline.Marks
import TemplateEngine.Plan
import TemplateEngine.Tag.Place

/-!
# Gaps

A second account of the literals of a plan, said of the template as a whole. A text between two
tags keeps everything but the whitespace that a statement next to it takes along
(`Options.keep`). Whether a statement stands behind an indent is asked of all the text before it,
and not only of what stands since the tag before.
-/

namespace TemplateEngine

namespace Text

/-- The text ends with a newline and then only spaces, at least one. -/
def EndsIndented (text : Text) : Prop :=
  ∃ line n, text = line ++ '\n' :: List.replicate (n + 1) ' '

theorem trimEnd_append_replicate (text : Text) (n : Nat) :
    trimEnd (text ++ List.replicate n ' ') (· == ' ') = trimEnd text (· == ' ') := by
  rw [trimEnd, List.reverse_append, List.reverse_replicate, List.dropWhile_append_of_pos, trimEnd]
  intro c hc
  rw [List.eq_of_mem_replicate hc]
  rfl

/-- A text is what is left without the spaces at its end, and these spaces. -/
theorem exists_eq_trimEnd_append (text : Text) :
    ∃ n, text = trimEnd text (· == ' ') ++ List.replicate n ' ' := by
  have hspaces : text.reverse.takeWhile (· == ' ')
      = List.replicate (text.reverse.takeWhile (· == ' ')).length ' ' := by
    refine List.eq_replicate_of_mem fun c hc => ?_
    exact eq_of_beq (List.all_eq_true.mp List.all_takeWhile c hc)
  refine ⟨(text.reverse.takeWhile (· == ' ')).length, ?_⟩
  rw [trimEnd, ← List.reverse_replicate, ← hspaces, ← List.reverse_append,
    List.takeWhile_append_dropWhile, List.reverse_reverse]

theorem endsInIndent_iff {text : Text} : text.endsInIndent = true ↔ text.EndsIndented := by
  simp only [endsInIndent, Bool.and_eq_true, decide_eq_true_eq, beq_iff_eq]
  constructor
  · rintro ⟨hlength, hlast⟩
    obtain ⟨n, hn⟩ := exists_eq_trimEnd_append text
    obtain ⟨line, hline⟩ := List.getLast?_eq_some_iff.mp hlast
    cases n with
    | zero =>
      rw [List.replicate_zero, List.append_nil] at hn
      rw [← hn] at hlength
      exact absurd hlength (Nat.lt_irrefl _)
    | succ n =>
      refine ⟨line, n, ?_⟩
      rw [hline, List.append_assoc, List.singleton_append] at hn
      exact hn
  · rintro ⟨line, n, rfl⟩
    have htrim : trimEnd (line ++ '\n' :: List.replicate (n + 1) ' ') (· == ' ')
        = line ++ ['\n'] := by
      rw [← List.singleton_append, ← List.append_assoc, trimEnd_append_replicate, trimEnd,
        List.reverse_append, List.reverse_singleton, List.singleton_append,
        List.dropWhile_cons_of_neg (by decide)]
      simp
    rw [htrim]
    exact ⟨by simp, by simp⟩

instance (text : Text) : Decidable text.EndsIndented := decidable_of_iff _ endsInIndent_iff

/-- The text without the newline that it begins with, if it does. -/
def dropNewline : Text → Text
  | '\n' :: text => text
  | text => text

end Text

namespace Options

variable (o : Options)

theorem keepBefore_prefix (before : Text) : o.keepBefore before <+: before := by
  rw [keepBefore]
  split
  · obtain ⟨n, hn⟩ := Text.exists_eq_trimEnd_append before
    exact ⟨_, hn.symm⟩
  · exact List.prefix_rfl

/-- What a tag takes along behind it is one newline, or nothing. -/
theorem exists_eq_append_keepAfter (after : Text) : ∃ newline, after = newline ++ o.keepAfter after
    ∧ newline.byteSize = if o.trimBlocks && after.head? == some '\n' then 1 else 0 := by
  cases htrim : o.trimBlocks with
  | false => exact ⟨[], by simp [keepAfter, htrim], rfl⟩
  | true =>
    cases after with
    | nil => exact ⟨[], by simp [keepAfter, htrim, Text.after?], rfl⟩
    | cons c after =>
      by_cases hc : c = '\n'
      · subst hc
        exact ⟨['\n'], by simp [keepAfter, htrim, Text.after?], rfl⟩
      · exact ⟨[], by simp [keepAfter, htrim, Text.after?, hc], by simp [hc, Text.byteSize]⟩

end Options

/-- What stays of the text between two tags of a template. There is no tag before the first such
text, and none behind the last. -/
def Options.keep (o : Options) (text : Text) (previous next : Option Tag.Found) (gap : Text) :
    Text :=
  let unindented :=
    if o.lstripBlocks ∧ next.any fun found =>
      found.tag.isStatement ∧ (found.span text).before.EndsIndented
    then gap.trimEnd (· == ' ') else gap
  if o.trimBlocks ∧ previous.any (·.tag.isStatement) then unindented.dropNewline else unindented

namespace Outline

/-- What stays of the texts from one tag on: before each of the tags that follow, and behind the
last. -/
def keptFrom (o : Options) (text : Text) : (previous : Option Tag.Found) → List Tag.Found →
    (last : Text) → List Text
  | previous, [], last => [o.keep text previous none last]
  | previous, found :: tags, last =>
    o.keep text previous (some found) found.gap :: keptFrom o text (some found) tags last

/-- What stays of the texts between the tags of a template. -/
def kept (o : Options) (text : Text) : List Text :=
  keptFrom o text none (Tag.split tagKinds text).1 (Tag.split tagKinds text).2

end Outline

/-- The text that an instruction writes as it stands. -/
def Instruction.literal? : Instruction → Option Text
  | .literal text => some text
  | _ => none

/-- What the literal instructions of a plan write, from the first. -/
def Plan.literals (plan : Plan) : List Text :=
  plan.instructions.toList.filterMap Instruction.literal?

end TemplateEngine
