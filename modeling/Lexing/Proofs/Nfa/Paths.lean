import Lexing.Nfa.Keyed
import Lexing.Proofs.Graph.Stack
import Lexing.Proofs.Nfa.Session
import Lexing.Proofs.Nfa.Simulation

set_option autoImplicit false

namespace Lexing.Nfa

namespace Keyed

theorem mem_targets_iff_flatten {k : Keyed} {p q : State} {label : Label} :
    q ∈ k.targets p label ↔ ⟨p, label, q⟩ ∈ k.flatten.edges :=
  mem_targets.trans SortedSet.mem_ofList.symm

/-- The stack finds what silent edges lead to, in whatever order and however often the roots come. -/
theorem closure_flatten {k : Keyed} {qs ps : List State} (same : ∀ q, q ∈ ps ↔ q ∈ qs) :
    k.flatten.closure ps = k.closure qs := by
  have edges : ∀ p q, q ∈ k.flatten.silent.next p ↔ q ∈ k.silent.next p := fun p q =>
    mem_next_silent.trans mem_targets_iff_flatten.symm
  refine SortedSet.ext fun q => ?_
  rw [mem_closure, closure, Graph.mem_exploreStack]
  constructor
  · intro walk
    exact (walk.mono fun p => (same p).1).imp fun p r => (edges p r).1
  · intro walk
    exact (walk.mono fun p => (same p).2).imp fun p r => (edges p r).2

theorem step_flatten (k : Keyed) (qs : StateSet) (c : Char) :
    k.flatten.step qs c = k.step qs c := by
  refine closure_flatten fun q => ?_
  simp only [mem_moves, List.mem_flatMap, mem_targets_iff_flatten, SortedSet.mem_def]

theorem acceptsFrom_flatten (k : Keyed) (qs : StateSet) (w : List Char) :
    k.flatten.acceptsFrom qs w = k.acceptsFrom qs w := by
  induction w generalizing qs with
  | nil => rfl
  | cons c rest ih => rw [Nfa.acceptsFrom, acceptsFrom, step_flatten, ih]

theorem accepts_flatten (k : Keyed) (w : List Char) : k.flatten.accepts w = k.accepts w := by
  rw [Nfa.accepts, initial, acceptsFrom_flatten, closure_flatten fun q => Iff.rfl]
  rfl

end Keyed

/-- A word is accepted if and only if edges lead from the start to an accepting state whose labels, the
silent ones left out, are the word. It makes no difference to go on when no state is left, nor to keep the
edges by source and label and follow the silent ones with a stack. -/
theorem accepts_iff_leads {edits : List Edit} {n : Nfa} (made : new.applyAll edits = n)
    (w : List Char) :
    (n.accepts w = true ↔ ∃ trail q, n.Leads n.start trail q ∧ q ∈ n.accepting ∧
      trail.filterMap Edge.label = w) ∧
    n.accepts w = n.anyAccepting (n.after n.initial w) ∧
    (Keyed.new.applyAll edits).flatten = n ∧ (Keyed.new.applyAll edits).accepts w = n.accepts w := by
  have filed : (Keyed.new.applyAll edits).flatten = n := by
    rw [Keyed.flatten_applyAll, Keyed.flatten_new, made]
  refine ⟨?_, n.accepts_eq w, filed, ?_⟩
  · rw [accepts_iff_path]
    constructor
    · rintro ⟨q, accepting, path⟩
      obtain ⟨trail, leads, spelled⟩ := path_iff_leads.1 path
      exact ⟨trail, q, leads, accepting, spelled⟩
    · rintro ⟨trail, q, leads, accepting, spelled⟩
      exact ⟨q, accepting, path_iff_leads.2 ⟨trail, leads, spelled⟩⟩
  · rw [← filed, Keyed.accepts_flatten]

/-- The states 0 and 1 are on a silent cycle, 1 has a silent loop and one with a letter, and only the way
through both leads to acceptance. -/
def loops : List Edit :=
  [.addEdge ⟨0, none, 1⟩, .addEdge ⟨1, none, 0⟩, .addEdge ⟨1, none, 1⟩, .addEdge ⟨1, some 'a', 1⟩,
    .addEdge ⟨0, some 'b', 2⟩, .addAccepting 2]

theorem accepts_iff_leads_loops : ∃ n, new.applyAll loops = n ∧
    n.Leads n.start [⟨0, none, 1⟩, ⟨1, some 'a', 1⟩, ⟨1, none, 1⟩, ⟨1, none, 0⟩, ⟨0, some 'b', 2⟩] 2 ∧
    n.accepts ['a', 'b'] = true ∧ (Keyed.new.applyAll loops).accepts ['a', 'b'] = true ∧
    n.accepts ['b', 'a', 'a'] = n.anyAccepting (n.after n.initial ['b', 'a', 'a']) := by
  have leads : (new.applyAll loops).Leads (new.applyAll loops).start
      [⟨0, none, 1⟩, ⟨1, some 'a', 1⟩, ⟨1, none, 1⟩, ⟨1, none, 0⟩, ⟨0, some 'b', 2⟩] 2 :=
    ⟨by decide, rfl, by decide, rfl, by decide, rfl, by decide, rfl, by decide, rfl, rfl⟩
  obtain ⟨accepted, _, _, filed⟩ := accepts_iff_leads (rfl : _ = new.applyAll loops) ['a', 'b']
  have accepts := accepted.2 ⟨_, 2, leads, by decide, rfl⟩
  obtain ⟨-, throughout, -⟩ := accepts_iff_leads (rfl : _ = new.applyAll loops) ['b', 'a', 'a']
  exact ⟨_, rfl, leads, accepts, filed.trans accepts, throughout⟩

end Lexing.Nfa
