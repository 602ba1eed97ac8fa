import TemplateEngine.Expression.Grammar
import TemplateEngine.Outline.Marks

/-!
# How marks read as an outline

The grammar of templates, as a relation between marks and the pieces they stand for. It
pairs every opening tag with the end tag of its own kind that closes it, so it says nothing
of templates in which end tags of different kinds interleave: those that `EndsMatch` leaves out.

Autoescape sections are no constructs. They may begin in one arm and end in another, and
are not closed at the end of a template, so the modes before and behind are part of the relation.
-/

namespace TemplateEngine

namespace Outline

variable (o : Options)

mutual

/-- Marks read as pieces, with the modes of open autoescape sections before and behind. -/
inductive Reads : (before : List Bool) → List Mark → Outline → (behind : List Bool) → Prop
  | nil (modes : List Bool) : Reads modes [] [] modes
  | text {modes behind : List Bool} {marks : List Mark} {rest : Outline} (literal : Text)
    (hrest : Reads modes marks rest behind) :
    Reads modes (.text literal :: marks) (.literal literal :: rest) behind
  | output {modes behind : List Bool} {marks : List Mark} {rest : Outline} (found : Tag.Found)
    {body : Text} {e : Expr} (parse : Expr.parse body = .ok e)
    (hrest : Reads modes marks rest behind) :
    Reads modes (.expression found body :: marks) (.output e (o.escape modes) :: rest) behind
  | exec {modes behind : List Bool} {marks : List Mark} {rest : Outline} (found : Tag.Found)
    {code : Text} {statements : List Statement} (parse : Statement.parseAll code = .ok statements)
    (hrest : Reads modes marks rest behind) :
    Reads modes (.statement found (.exec code) :: marks) (.exec statements :: rest) behind
  /-- a tag that opens or ends an autoescape section -/
  | mode {modes inner behind : List Bool} {marks : List Mark} {rest : Outline}
    (found : Tag.Found) {directive : Directive} (change : directive.modes? modes = some inner)
    (hrest : Reads inner marks rest behind) :
    Reads modes (.statement found directive :: marks) rest behind
  | branch {modes inner last behind : List Bool} {marks others more : List Mark}
    {yes rest : Outline} {no : Option Outline} (found : Tag.Found) {condition : Text} {e : Expr}
    (parse : Expr.parse condition = .ok e) (hyes : Reads modes marks yes inner)
    (hno : Other .branch inner others no last) (hrest : Reads last more rest behind) :
    Reads modes (.statement found (.openIf condition) :: (marks ++ (others ++ more)))
      (.branch e yes no :: rest) behind
  | loop {modes inner last behind : List Bool} {marks others more : List Mark}
    {body rest : Outline} {empty : Option Outline} (found : Tag.Found) {text : Text}
    {header : LoopHeader} (parse : LoopHeader.parse text = .ok header)
    (hbody : Reads modes marks body inner) (hempty : Other .loop inner others empty last)
    (hrest : Reads last more rest behind) :
    Reads modes (.statement found (.openFor text) :: (marks ++ (others ++ more)))
      (.loop header body empty :: rest) behind
  | repetition {modes inner behind : List Bool} {marks more : List Mark} {body rest : Outline}
    (found last : Tag.Found) {condition : Text} {e : Expr}
    (parse : Expr.parse condition = .ok e) (hbody : Reads modes marks body inner)
    (hrest : Reads inner more rest behind) :
    Reads modes
      (.statement found (.openWhile condition) :: (marks ++ .statement last .endWhile :: more))
      (.repetition e body :: rest) behind

/-- Marks read as the rest of an `if` or `for` up to its end tag: its `else` or `empty` part, if
it has one. An `elif` is an `if` in the `else` part that ends with the same tag. -/
inductive Other : Construct → (before : List Bool) → List Mark → Option Outline →
    (behind : List Bool) → Prop
  | endIf (modes : List Bool) (found : Tag.Found) :
    Other .branch modes [.statement found .endIf] none modes
  | otherwise {modes behind : List Bool} {marks : List Mark} {no : Outline}
    (found last : Tag.Found) (hno : Reads modes marks no behind) :
    Other .branch modes (.statement found .otherwise :: (marks ++ [.statement last .endIf]))
      (some no) behind
  | elif {modes inner behind : List Bool} {marks others : List Mark} {yes : Outline}
    {no : Option Outline} (found : Tag.Found) {condition : Text} {e : Expr}
    (parse : Expr.parse condition = .ok e) (hyes : Reads modes marks yes inner)
    (hno : Other .branch inner others no behind) :
    Other .branch modes (.statement found (.elif condition) :: (marks ++ others))
      (some [.branch e yes no]) behind
  | endFor (modes : List Bool) (found : Tag.Found) :
    Other .loop modes [.statement found .endFor] none modes
  | empty {modes behind : List Bool} {marks : List Mark} {none : Outline}
    (found last : Tag.Found) (hnone : Reads modes marks none behind) :
    Other .loop modes (.statement found .empty :: (marks ++ [.statement last .endFor]))
      (some none) behind

end

end Outline

/-- The construct that a mark ends. -/
def Mark.ends? : Mark → Option Construct
  | .text _ | .expression _ _ => none
  | .statement _ directive => directive.ends?

/-- The constructs that are open behind a mark, from the innermost. -/
def Mark.openBehind (opened : List Construct) : Mark → List Construct
  | .text _ | .expression _ _ => opened
  | .statement _ directive =>
    match directive.begins?, directive.ends? with
    | some construct, _ => construct :: opened
    | none, some _ => opened.tail
    | none, none => opened

namespace Outline

/-- Every end tag names the innermost construct that is open, given those that are open before. -/
def EndsMatch : (opened : List Construct) → List Mark → Prop
  | _, [] => True
  | opened, m :: marks =>
    (m.ends? = none ∨ m.ends? = opened.head?) ∧ EndsMatch (m.openBehind opened) marks

instance EndsMatch.decidable : (opened : List Construct) → (marks : List Mark) →
    Decidable (EndsMatch opened marks)
  | _, [] => inferInstanceAs (Decidable True)
  | opened, m :: marks =>
    have := decidable (m.openBehind opened) marks
    inferInstanceAs (Decidable (_ ∧ _))

variable {o}

theorem Reads.append {before middle behind : List Bool} {marks more : List Mark}
    {pieces rest : Outline} : Reads o before marks pieces middle →
    Reads o middle more rest behind → Reads o before (marks ++ more) (pieces ++ rest) behind
  | .nil _, hrest => hrest
  | .text literal h, hrest => .text literal (h.append hrest)
  | .output found parse h, hrest => .output found parse (h.append hrest)
  | .exec found parse h, hrest => .exec found parse (h.append hrest)
  | .mode found change h, hrest => .mode found change (h.append hrest)
  | .branch found parse hyes hno h, hrest => by
    simpa using Reads.branch found parse hyes hno (h.append hrest)
  | .loop found parse hbody hempty h, hrest => by
    simpa using Reads.loop found parse hbody hempty (h.append hrest)
  | .repetition found last parse hbody h, hrest => by
    simpa using Reads.repetition found last parse hbody (h.append hrest)

end Outline

end TemplateEngine
