import TemplateEngine.Language

/-!
# Options

What a template is compiled with beside its source: the language that values are escaped
for, and how much of the whitespace around tags is dropped. Only statements and comments take
whitespace along: one newline behind them, and the spaces before them if they begin their
line (`Options.keepAfter`, `Options.keepBefore`).
-/

namespace TemplateEngine

/-- The options of a template. -/
structure Options where
  /-- the language the template produces -/
  language : Language := .html
  /-- drop the first newline behind a statement or comment -/
  trimBlocks : Bool := true
  /-- drop the spaces before a statement or comment that begins its line -/
  lstripBlocks : Bool := true
  deriving DecidableEq, Repr

namespace Options

/-- What stays of the text before a tag that can take its indent along. -/
def keepBefore (o : Options) (before : Text) : Text :=
  if o.lstripBlocks && before.endsInIndent then before.trimEnd (· == ' ') else before

/-- What stays of the text behind a tag that can take a newline along. -/
def keepAfter (o : Options) (after : Text) : Text :=
  if o.trimBlocks then (after.after? ['\n']).getD after else after

theorem length_keepBefore_le (o : Options) (before : Text) :
    (o.keepBefore before).length ≤ before.length := by
  unfold keepBefore
  split
  · have := (List.dropWhile_sublist (· == ' ') (l := before.reverse)).length_le
    simpa [Text.trimEnd] using this
  · exact Nat.le_refl _

theorem length_keepAfter_le (o : Options) (after : Text) :
    (o.keepAfter after).length ≤ after.length := by
  unfold keepAfter
  split
  · cases h : after.after? ['\n'] with
    | none => simp
    | some rest =>
      rw [Text.after?_eq_some] at h
      simp [h]
  · exact Nat.le_refl _

end Options

end TemplateEngine
