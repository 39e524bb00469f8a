import Lexing.Dfa.Basic
import Lexing.Nfa.Run
import Lexing.Partition

set_option autoImplicit false

namespace Lexing

/-- There are finitely many ways to leave out members of a list. -/
theorem exists_all_filters {α : Type} (l : List α) :
    ∃ kept : List (List α), ∀ p : α → Bool, l.filter p ∈ kept := by
  induction l with
  | nil => exact ⟨[[]], fun p => List.mem_singleton.2 rfl⟩
  | cons a rest ih =>
    obtain ⟨kept, all⟩ := ih
    refine ⟨kept ++ kept.map (a :: ·), fun p => List.mem_append.2 ?_⟩
    by_cases keep : p a
    · rw [List.filter_cons_of_pos keep]
      exact .inr (List.mem_map.2 ⟨_, all p, rfl⟩)
    · rw [List.filter_cons_of_neg keep]
      exact .inl (all p)

namespace Nfa

theorem target_of_mem_step {n : Nfa} {qs : StateSet} {c : Char} {q : State}
    (h : q ∈ n.step qs c) : q ∈ n.edges.toList.map Edge.target := by
  rw [mem_step] at h
  cases h with
  | root moved =>
    obtain ⟨p, _, edge⟩ := mem_moves.1 moved
    exact List.mem_map.2 ⟨_, edge, rfl⟩
  | step _ silent =>
    have edge := mem_next_silent.1 silent
    exact List.mem_map.2 ⟨_, edge, rfl⟩

def powerset (n : Nfa) : Graph StateSet where
  next := n.successors
  finite := by
    obtain ⟨kept, all⟩ := exists_all_filters (n.edges.toList.map Edge.target)
    refine ⟨kept.map SortedSet.ofList, ?_⟩
    intro qs rs h
    rw [successors_eq_map_step, List.mem_map] at h
    obtain ⟨c, _, rfl⟩ := h
    refine List.mem_map.2 ⟨_, all (· ∈ n.step qs c), SortedSet.ext ?_⟩
    intro q
    rw [SortedSet.mem_ofList, List.mem_filter, decide_eq_true_iff]
    exact ⟨And.right, fun member => ⟨target_of_mem_step member, member⟩⟩

/-- The sets that some word leads to, in the order of their numbers. -/
def subsets (n : Nfa) : List StateSet := n.powerset.explore [n.initial]

def determinize (n : Nfa) : Dfa :=
  let subsets := n.subsets
  { alphabet := n.alphabet
    start := 0
    table := (subsets.flatMap fun qs => (n.successors qs).map subsets.idxOf?).toArray
    accepting := (subsets.map n.anyAccepting).toArray
    origins := subsets.toArray }

end Nfa

end Lexing

namespace Lexing.Dfa

/-- The classes of states that no word tells apart. They are split by the rows of their states, in
which each successor is replaced by the leader of its class. -/
def classes (d : Dfa) : Partition :=
  let rows := (Array.range d.numStates).map d.row
  ((Partition.whole d.numStates).split d.accepting).stabilize fun p =>
    rows.map fun row => row.map (Option.map p.leader)

theorem size_classes (d : Dfa) : d.classes.size = d.numStates := by
  rw [classes, Partition.size_stabilize, Partition.size_split, Partition.size_whole]

/-- An automaton with one state for each class of like states, numbered by the least of a class. -/
def minimize (d : Dfa) : Dfa :=
  let classes := d.classes
  let heads := classes.heads
  let classOf (q : State) : State := heads.idxOf (classes.leader q)
  { alphabet := d.alphabet
    start := classOf d.start
    table := (heads.flatMap fun q => (d.row q).map (Option.map classOf)).toArray
    accepting := (heads.map d.isAccepting).toArray
    origins := (heads.map fun head => SortedSet.ofList (classes.members head)).toArray }

/-- An automaton that comes out of some operations, failed edits included. -/
inductive Built : Dfa → Prop where
  | new (symbols : List Char) : Built (.new symbols)
  | edit {d : Dfa} (e : Edit) : Built d → Built (d.apply e).1
  | determinize {n : Nfa} : n.Built → Built n.determinize
  | minimize {d : Dfa} : Built d → Built d.minimize

/-- Applies edits in order. An edit that fails changes nothing, and the next one is applied. -/
def applyAll (d : Dfa) : List Edit → Dfa
  | [] => d
  | e :: rest => (d.apply e).1.applyAll rest

def successes (d : Dfa) : List Edit → List Edit
  | [] => []
  | e :: rest =>
    let later := (d.apply e).1.successes rest
    if (d.apply e).2.isOk then e :: later else later

/-- The target that an edit sets for a state and a character, if it sets one. -/
def Edit.target? (q : State) (c : Char) : Edit → Option State
  | .addTransition source a target => if q = source ∧ c = a then some target else none
  | _ => none

theorem Built.applyAll {d : Dfa} (built : Built d) (edits : List Edit) :
    Built (d.applyAll edits) := by
  induction edits generalizing d with
  | nil => exact built
  | cons e rest ih => exact ih (built.edit e)

end Lexing.Dfa
