import Lexing.Graph
import Lexing.SortedSet

set_option autoImplicit false

namespace Lexing.Graph

variable {α : Type} [Ord α] [DecidableEq α]

/-- The successors that have not been visited, in the order in which they leave a stack. -/
def pushed (g : Graph α) (visited : SortedSet α) (a : α) : List α :=
  ((g.next a).filter (· ∉ visited)).reverse

theorem mem_pushed {g : Graph α} {visited : SortedSet α} {a b : α} :
    b ∈ g.pushed visited a ↔ b ∈ g.next a ∧ b ∉ visited := by
  simp [pushed]

/-- How many of some vertices have not been visited, together with the others that wait. -/
def pending (targets : List α) (visited : SortedSet α) (stack : List α) : Nat :=
  (targets.filter (· ∉ visited)).length + (stack.filter (· ∉ targets)).length

theorem pending_drop (targets : List α) (visited : SortedSet α) (a : α) (rest : List α) :
    pending targets visited rest ≤ pending targets visited (a :: rest) :=
  Nat.add_le_add_left ((List.sublist_cons_self a rest).filter _).length_le _

variable [Std.TransOrd α] [Std.LawfulEqOrd α]

/-- A vertex that is visited for the first time is either one of the targets, of which one less is left,
or waits for the last time at this place, for only targets are put onto the stack. -/
theorem pending_visit {targets new : List α} {visited : SortedSet α} {a : α} {rest : List α}
    (first : a ∉ visited) (known : ∀ b ∈ new, b ∈ targets) :
    pending targets (visited.insert a) (new ++ rest) < pending targets visited (a :: rest) := by
  have none : new.filter (· ∉ targets) = [] := by simpa using known
  have split : targets.filter (· ∉ visited.insert a) =
      (targets.filter (· ∉ visited)).filter (· ≠ a) := by
    simp [List.filter_filter, not_or]
  rw [pending, pending, List.filter_append, none, List.nil_append, split]
  by_cases target : a ∈ targets
  · have less : ((targets.filter (· ∉ visited)).filter (· ≠ a)).length <
        (targets.filter (· ∉ visited)).length :=
      List.length_filter_lt_length_iff_exists.2 ⟨a, by simp [target, first], by simp⟩
    rw [List.filter_cons_of_neg (by simp [target])]
    omega
  · have less := List.length_filter_le (· ≠ a) (targets.filter (· ∉ visited))
    rw [List.filter_cons_of_pos (by simp [target]), List.length_cons]
    omega

/-- Visits what waits on a stack and all that comes up then. -/
def unstack (g : Graph α) (visited : SortedSet α) : List α → SortedSet α
  | [] => visited
  | a :: rest =>
    if a ∈ visited then g.unstack visited rest
    else
      let visited := visited.insert a
      g.unstack visited (g.pushed visited a ++ rest)
termination_by stack => (pending g.finite.choose visited stack, stack.length)
decreasing_by
  · rcases Nat.lt_or_eq_of_le (pending_drop g.finite.choose visited a rest) with less | same
    · exact .left _ _ less
    · exact same ▸ .right _ (Nat.lt_succ_self rest.length)
  · refine .left _ _ (pending_visit ‹_› fun b mem => ?_)
    exact g.finite.choose_spec a b (mem_pushed.1 mem).1

/-- One turn of this search: what is on top of the stack is taken from it, and visited if it has not been.
Nothing changes once the stack is empty. -/
def turn (g : Graph α) : SortedSet α × List α → SortedSet α × List α
  | (visited, []) => (visited, [])
  | (visited, a :: rest) =>
    if a ∈ visited then (visited, rest)
    else
      let visited := visited.insert a
      (visited, g.pushed visited a ++ rest)

/-- Everything that is found from some roots, the last of which is visited first. -/
def exploreStack (g : Graph α) (roots : List α) : SortedSet α := g.unstack ∅ roots.reverse

end Lexing.Graph
