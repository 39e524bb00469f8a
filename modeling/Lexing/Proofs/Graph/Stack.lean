import Lexing.Graph.Stack
import Mathlib.Logic.Function.Iterate

set_option autoImplicit false

namespace Lexing.Graph

variable {α : Type} [Ord α]

/-- What holds whenever a vertex is taken from the stack. -/
structure Stacked (g : Graph α) (roots : List α) (visited : SortedSet α) (stack : List α) : Prop where
  visited_reachable : ∀ a ∈ visited, g.Reachable roots a
  stack_reachable : ∀ a ∈ stack, g.Reachable roots a
  root_known : ∀ a ∈ roots, a ∈ visited ∨ a ∈ stack
  closed : ∀ a ∈ visited, ∀ b ∈ g.next a, b ∈ visited ∨ b ∈ stack

variable {g : Graph α} {roots stack : List α} {visited : SortedSet α}

theorem stacked_start (g : Graph α) (roots : List α) : Stacked g roots ∅ roots.reverse where
  visited_reachable a mem := absurd mem (SortedSet.not_mem_empty a)
  stack_reachable _ mem := .root (List.mem_reverse.1 mem)
  root_known _ root := .inr (List.mem_reverse.2 root)
  closed a mem := absurd mem (SortedSet.not_mem_empty a)

/-- A vertex that has been visited is dropped. -/
theorem Stacked.drop {a : α} (stacked : Stacked g roots visited (a :: stack)) (old : a ∈ visited) :
    Stacked g roots visited stack := by
  have known : ∀ b, b ∈ visited ∨ b ∈ a :: stack → b ∈ visited ∨ b ∈ stack := by
    rintro b (mem | waiting)
    · exact .inl mem
    · rcases List.mem_cons.1 waiting with rfl | waiting
      · exact .inl old
      · exact .inr waiting
  exact {
    visited_reachable := stacked.visited_reachable
    stack_reachable := fun b mem => stacked.stack_reachable b (List.mem_cons_of_mem a mem)
    root_known := fun b root => known b (stacked.root_known b root)
    closed := fun b mem c edge => known c (stacked.closed b mem c edge) }

/-- Once the stack is empty, the vertices that were visited are those that can be reached. -/
theorem Stacked.mem_iff (stacked : Stacked g roots visited []) {a : α} :
    a ∈ visited ↔ g.Reachable roots a := by
  constructor
  · exact stacked.visited_reachable a
  · intro walk
    induction walk with
    | root mem => exact (stacked.root_known _ mem).resolve_right List.not_mem_nil
    | step _ edge ih => exact (stacked.closed _ ih _ edge).resolve_right List.not_mem_nil

variable [DecidableEq α]

/-- How many turns are left at most: one for each vertex on the stack, and one for each edge whose source
has not been visited, for only these put more vertices there. -/
def turnsLeft (edges : List (α × α)) (visited : SortedSet α) (stack : List α) : Nat :=
  stack.length + edges.countP (·.1 ∉ visited)

theorem turnsLeft_drop (edges : List (α × α)) (visited : SortedSet α) (a : α) (rest : List α) :
    turnsLeft edges visited rest < turnsLeft edges visited (a :: rest) := by
  rw [turnsLeft, turnsLeft, List.length_cons]
  omega

theorem length_pushed_le (g : Graph α) (visited : SortedSet α) (a : α) :
    (g.pushed visited a).length ≤ (g.next a).length := by
  rw [pushed, List.length_reverse]
  exact List.length_filter_le _ _

variable [Std.TransOrd α] [Std.LawfulEqOrd α]

/-- Another vertex is visited, and those of its successors that have not been are put onto the stack. -/
theorem Stacked.visit {a : α} (stacked : Stacked g roots visited (a :: stack)) :
    Stacked g roots (visited.insert a) (g.pushed (visited.insert a) a ++ stack) := by
  have here : g.Reachable roots a := stacked.stack_reachable a List.mem_cons_self
  have known : ∀ b, b ∈ visited ∨ b ∈ a :: stack →
      b ∈ visited.insert a ∨ b ∈ g.pushed (visited.insert a) a ++ stack := by
    rintro b (mem | waiting)
    · exact .inl (SortedSet.mem_insert.2 (.inr mem))
    · rcases List.mem_cons.1 waiting with rfl | waiting
      · exact .inl (SortedSet.mem_insert.2 (.inl rfl))
      · exact .inr (List.mem_append_right _ waiting)
  refine ⟨fun b mem => ?_, fun b mem => ?_, fun b root => known b (stacked.root_known b root),
    fun b mem c edge => ?_⟩
  · rcases SortedSet.mem_insert.1 mem with rfl | old
    · exact here
    · exact stacked.visited_reachable b old
  · rcases List.mem_append.1 mem with new | waiting
    · exact here.step (mem_pushed.1 new).1
    · exact stacked.stack_reachable b (List.mem_cons_of_mem a waiting)
  · rcases SortedSet.mem_insert.1 mem with rfl | old
    · by_cases new : c ∈ visited.insert b
      · exact .inl new
      · exact .inr (List.mem_append_left _ (mem_pushed.2 ⟨edge, new⟩))
    · exact known c (stacked.closed b old c edge)

theorem Stacked.mem_unstack (stacked : Stacked g roots visited stack) {a : α} :
    a ∈ g.unstack visited stack ↔ g.Reachable roots a := by
  fun_induction unstack g visited stack with
  | case1 visited => exact stacked.mem_iff
  | case2 visited b rest old ih => exact ih (stacked.drop old)
  | case3 visited b rest first more ih => exact ih stacked.visit

theorem mem_exploreStack {a : α} : a ∈ g.exploreStack roots ↔ g.Reachable roots a :=
  (stacked_start g roots).mem_unstack

/-- The edges that begin at a vertex are counted until it is visited. -/
theorem countP_insert (edges : List (α × α)) {a : α} (first : a ∉ visited) :
    edges.countP (·.1 ∉ visited) =
      edges.countP (·.1 = a) + edges.countP (·.1 ∉ visited.insert a) := by
  induction edges with
  | nil => rfl
  | cons e rest ih =>
    simp only [List.countP_cons, SortedSet.mem_insert, not_or, ih]
    by_cases here : e.1 = a
    · simp [here, first]
      omega
    · simp [here]
      omega

theorem turnsLeft_visit {edges : List (α × α)} {a : α}
    (known : (g.next a).length ≤ edges.countP (·.1 = a)) (first : a ∉ visited) (rest : List α) :
    turnsLeft edges (visited.insert a) (g.pushed (visited.insert a) a ++ rest) <
      turnsLeft edges visited (a :: rest) := by
  have pushed := g.length_pushed_le (visited.insert a) a
  have split := countP_insert edges first
  rw [turnsLeft, turnsLeft, List.length_append, List.length_cons]
  omega

theorem turn_of_mem {a : α} {rest : List α} (old : a ∈ visited) :
    g.turn (visited, a :: rest) = (visited, rest) := by
  rw [turn, if_pos old]

theorem turn_of_not_mem {a : α} {rest : List α} (first : a ∉ visited) :
    g.turn (visited, a :: rest) =
      (visited.insert a, g.pushed (visited.insert a) a ++ rest) := by
  rw [turn, if_neg first]

/-- Enough turns empty the stack, and what has been visited then is what the search finds. The induction is
on the turns, each of which brings the count down as long as something waits. -/
theorem iterate_turn {edges : List (α × α)}
    (known : ∀ a, (g.next a).length ≤ edges.countP (·.1 = a)) {turns : Nat}
    (enough : turnsLeft edges visited stack ≤ turns) :
    g.turn^[turns] (visited, stack) = (g.unstack visited stack, []) := by
  induction turns generalizing visited stack with
  | zero =>
    have none : stack = [] := by
      apply List.eq_nil_of_length_eq_zero
      rw [turnsLeft] at enough
      omega
    subst none
    rw [unstack]
    rfl
  | succ turns ih =>
    cases stack with
    | nil =>
      rw [unstack]
      exact Function.iterate_fixed rfl _
    | cons a rest =>
      rw [Function.iterate_succ_apply, unstack]
      by_cases old : a ∈ visited
      · have less := turnsLeft_drop edges visited a rest
        rw [turn_of_mem old, if_pos old]
        apply ih
        omega
      · have less := turnsLeft_visit (known a) old rest
        rw [turn_of_not_mem old, if_neg old]
        apply ih
        omega

end Lexing.Graph
