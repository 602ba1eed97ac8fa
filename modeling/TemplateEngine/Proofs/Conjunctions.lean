import TemplateEngine.Expression.Eval
import TemplateEngine.Proofs.Results

/-!
# Comparison chains are conjunctions

A chain such as `1 < x <= 3` evaluates each operand once, and none behind the first link that does
not hold. Joining the comparisons of neighbours by `and` evaluates the operands between two links
twice, and yet it comes to the same value or error, however the comparisons are bracketed
(`Expr.compare_eq_conjunction`).

The step is that a chain may be cut at any of its operands, which then ends one chain and begins the
next (`Expr.eval_compare_append`). Cut link by link, a chain is decided by its first comparison that
is not true, be it false or an error (`Expr.eval_compare_decided`); cut where the brackets are, it
is the conjunction, by induction on the brackets (`Expr.Joins.eval_eq`).
-/

namespace TemplateEngine

namespace Expr

/-- The comparisons of neighbours in a chain, each with two operands of its own. -/
def comparisons (first : Expr) : List (Comparison × Expr) → List Expr
  | [] => []
  | (c, e) :: links => compare first [(c, e)] :: comparisons e links

/-- An expression joins others by `and`, in their order, with any brackets. -/
inductive Joins : List Expr → Expr → Prop where
  | single (e : Expr) : Joins [e] e
  | and {es fs : List Expr} {left right : Expr} (hleft : Joins es left) (hright : Joins fs right) :
      Joins (es ++ fs) (.and left right)

/-- Expressions joined by `and` without brackets, so from the left. -/
def conjunction (first : Expr) (others : List Expr) : Expr := others.foldl .and first

variable {lookup : Text → Option Value} {e f joined : Expr} {es : List Expr} {c : Comparison}
  {links before after : List (Comparison × Expr)}

/-! ## Brackets -/

theorem Joins.foldl (h : Joins es e) (others : List Expr) :
    Joins (es ++ others) (others.foldl .and e) := by
  induction others generalizing es e with
  | nil => rwa [List.append_nil]
  | cons f others ih =>
    rw [List.append_cons]
    exact ih (h.and (.single f))

theorem joins_conjunction (first : Expr) (others : List Expr) :
    Joins (first :: others) (conjunction first others) :=
  (Joins.single first).foldl others

theorem Joins.ne_nil (h : Joins es e) : es ≠ [] := by
  induction h with
  | single e => exact List.cons_ne_nil _ _
  | and hleft hright ihleft ihright => exact List.append_ne_nil_of_left_ne_nil ihleft _

/-! ## Cutting a chain -/

theorem eval_and (e f : Expr) : (and e f).eval lookup = do
    let v ← e.eval lookup
    if v.truthy then f.eval lookup else return v := by
  rw [eval]

theorem comparisons_eq_nil_iff : comparisons e links = [] ↔ links = [] := by
  cases links <;> simp [comparisons]

/-- Where the comparisons of a chain are cut, the chain is cut at an operand. -/
theorem comparisons_eq_append {fs : List Expr} (h : comparisons e links = es ++ fs)
    (hes : es ≠ []) :
    ∃ before c f after, links = before ++ (c, f) :: after
      ∧ es = comparisons e (before ++ [(c, f)]) ∧ fs = comparisons f after := by
  induction links generalizing e es with
  | nil => exact absurd (List.append_eq_nil_iff.mp h.symm).1 hes
  | cons link links ih =>
    obtain ⟨c, f⟩ := link
    obtain ⟨d, es, rfl⟩ := List.exists_cons_of_ne_nil hes
    rw [comparisons, List.cons_append] at h
    obtain ⟨rfl, hrest⟩ := List.cons.inj h
    by_cases hnil : es = []
    · subst hnil
      exact ⟨[], c, f, links, rfl, rfl, hrest.symm⟩
    · obtain ⟨before, d, g, after, rfl, rfl, rfl⟩ := ih hrest hnil
      exact ⟨(c, f) :: before, d, g, after, rfl, rfl, rfl⟩

theorem evalLinks_append (v : Value) (before : List (Comparison × Expr)) (c : Comparison) (f : Expr)
    (after : List (Comparison × Expr)) :
    evalLinks lookup v (before ++ (c, f) :: after) = do
      let u ← evalLinks lookup v (before ++ [(c, f)])
      if u.truthy then (compare f after).eval lookup else return u := by
  induction before generalizing v with
  | nil =>
    rw [List.nil_append, List.nil_append, evalLinks, evalLinks, eval]
    cases f.eval lookup with
    | error err => rfl
    | ok w =>
      -- the conjunction evaluates `f` again if the chain goes on, and gets `w` again
      rw [ok_bind, ok_bind]
      cases c.holds v w with
      | error err => rfl
      | ok b => cases b <;> rfl
  | cons link before ih =>
    obtain ⟨d, g⟩ := link
    rw [List.cons_append, List.cons_append, evalLinks, evalLinks]
    cases g.eval lookup with
    | error err => rfl
    | ok w =>
      rw [ok_bind, ok_bind]
      cases d.holds v w with
      | error err => rfl
      | ok b =>
        cases b with
        | false => rfl
        | true => exact ih w

/-- **A chain may be cut at any operand**: it goes on behind the cut if it holds before it. -/
theorem eval_compare_append (e : Expr) (before : List (Comparison × Expr)) (c : Comparison)
    (f : Expr) (after : List (Comparison × Expr)) :
    (compare e (before ++ (c, f) :: after)).eval lookup
      = (and (compare e (before ++ [(c, f)])) (compare f after)).eval lookup := by
  rw [eval_and, eval, eval]
  cases e.eval lookup with
  | error err => rfl
  | ok v => exact evalLinks_append v before c f after

theorem eval_compare_cons (e : Expr) (c : Comparison) (f : Expr)
    (links : List (Comparison × Expr)) :
    (compare e ((c, f) :: links)).eval lookup
      = (and (compare e [(c, f)]) (compare f links)).eval lookup :=
  eval_compare_append e [] c f links

/-! ## The comparison that decides -/

theorem exists_bool_of_evalLinks {v w : Value} (h : evalLinks lookup v links = .ok w) :
    ∃ b, w = .bool b := by
  induction links generalizing v with
  | nil => exact ⟨true, (Except.ok.inj h).symm⟩
  | cons link links ih =>
    obtain ⟨c, e⟩ := link
    rw [evalLinks] at h
    obtain ⟨u, -, h⟩ := exists_of_bind_eq_ok h
    obtain ⟨b, -, h⟩ := exists_of_bind_eq_ok h
    cases b with
    | false => exact ⟨false, (Except.ok.inj h).symm⟩
    | true => exact ih h

theorem exists_bool_of_eval_compare {v : Value} (h : (compare e links).eval lookup = .ok v) :
    ∃ b, v = .bool b := by
  rw [eval] at h
  obtain ⟨w, -, h⟩ := exists_of_bind_eq_ok h
  exact exists_bool_of_evalLinks h

/-- Behind a chain that is not true nothing is evaluated. -/
theorem eval_and_of_ne (h : (compare e links).eval lookup ≠ .ok (.bool true)) (f : Expr) :
    (and (compare e links) f).eval lookup = (compare e links).eval lookup := by
  rw [eval_and]
  cases hchain : (compare e links).eval lookup with
  | error err => rfl
  | ok v =>
    obtain ⟨b, rfl⟩ := exists_bool_of_eval_compare hchain
    cases b with
    | false => rfl
    | true => exact absurd hchain h

/-- The first comparison that is not true decides a chain, be it false or an error; what stands
behind it does not matter. -/
theorem eval_compare_decided {next : Expr} {done rest : List Expr}
    (h : comparisons e links = done ++ next :: rest)
    (hdone : ∀ d ∈ done, d.eval lookup = .ok (.bool true))
    (hnext : next.eval lookup ≠ .ok (.bool true)) :
    (compare e links).eval lookup = next.eval lookup := by
  induction done generalizing e links with
  | nil =>
    cases links with
    | nil => cases h
    | cons link links =>
      obtain ⟨c, f⟩ := link
      obtain ⟨rfl, -⟩ := List.cons.inj h
      rw [eval_compare_cons, eval_and_of_ne hnext]
  | cons d done ih =>
    cases links with
    | nil => cases h
    | cons link links =>
      obtain ⟨c, f⟩ := link
      obtain ⟨rfl, hrest⟩ := List.cons.inj h
      obtain ⟨hfirst, hdone⟩ := List.forall_mem_cons.mp hdone
      rw [eval_compare_cons, eval_and, hfirst]
      exact ih hrest hdone

/-! ## Chains and conjunctions -/

theorem Joins.eval_eq (h : Joins (comparisons e links) joined) :
    joined.eval lookup = (compare e links).eval lookup := by
  generalize hes : comparisons e links = es at h
  induction h generalizing e links with
  | single d =>
    cases links with
    | nil => cases hes
    | cons link links =>
      obtain ⟨c, f⟩ := link
      obtain ⟨rfl, hnil⟩ := List.cons.inj hes
      rw [comparisons_eq_nil_iff.mp hnil]
  | and hleft hright ihleft ihright =>
    obtain ⟨before, c, f, after, rfl, rfl, rfl⟩ := comparisons_eq_append hes hleft.ne_nil
    rw [eval_compare_append, eval_and, eval_and, ihleft rfl, ihright rfl]

/-- **A comparison chain is the conjunction of its links.** In every scope it has the value or the
error of the comparisons of neighbours joined by `and`, from the left or with any other brackets. -/
theorem compare_eq_conjunction (lookup : Text → Option Value) (first : Expr) (c : Comparison)
    (e : Expr) (links : List (Comparison × Expr)) :
    (compare first ((c, e) :: links)).eval lookup
        = (conjunction (compare first [(c, e)]) (comparisons e links)).eval lookup
      ∧ ∀ joined, Joins (comparisons first ((c, e) :: links)) joined →
        (compare first ((c, e) :: links)).eval lookup = joined.eval lookup := by
  have hconjunction : Joins (comparisons first ((c, e) :: links))
      (conjunction (compare first [(c, e)]) (comparisons e links)) := joins_conjunction _ _
  exact ⟨hconjunction.eval_eq.symm, fun joined hjoined => hjoined.eval_eq.symm⟩

/-- An operand without an order comes before one without a value: the chain and a conjunction with
brackets on the right give the error of the former. -/
theorem compare_eq_conjunction_unordered :
    let lookup : Text → Option Value := fun n => if n = "x".toList then some (.int 2) else none
    let one := literal (.int 1)
    let x := name "x".toList
    let a := literal (.str "a".toList)
    let y := name "y".toList
    let chain := compare one [(.less, x), (.atMost, a), (.equal, y)]
    let joined := and (compare one [(.less, x)]) (and (compare x [(.atMost, a)])
      (compare a [(.equal, y)]))
    Joins (comparisons one [(.less, x), (.atMost, a), (.equal, y)]) joined
      ∧ y.eval lookup = .error (.undefinedVariable "y".toList)
      ∧ chain.eval lookup = .error (.type (.unordered .int .str))
      ∧ joined.eval lookup = .error (.type (.unordered .int .str)) := by
  intro lookup one x a y chain joined
  have hjoins : Joins (comparisons one [(.less, x), (.atMost, a), (.equal, y)]) joined :=
    (Joins.single _).and ((Joins.single _).and (.single _))
  have hchain : chain.eval lookup = .error (.type (.unordered .int .str)) := rfl
  obtain ⟨-, hbrackets⟩ := compare_eq_conjunction lookup one .less x [(.atMost, a), (.equal, y)]
  exact ⟨hjoins, rfl, hchain, (hbrackets joined hjoins).symm.trans hchain⟩

end Expr

end TemplateEngine
