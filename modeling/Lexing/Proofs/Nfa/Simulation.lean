import Lexing.Nfa.Run

set_option autoImplicit false

namespace Lexing.Nfa

/-- The states that the automaton may be in after a word. -/
def after (n : Nfa) (qs : StateSet) (w : List Char) : StateSet := w.foldl n.step qs

@[simp] theorem after_nil (n : Nfa) (qs : StateSet) : n.after qs [] = qs := rfl

@[simp] theorem after_cons (n : Nfa) (qs : StateSet) (c : Char) (w : List Char) :
    n.after qs (c :: w) = n.after (n.step qs c) w := rfl

theorem after_append (n : Nfa) (qs : StateSet) (u v : List Char) :
    n.after qs (u ++ v) = n.after (n.after qs u) v := List.foldl_append

def SilentClosed (n : Nfa) (qs : StateSet) : Prop :=
  ∀ p ∈ qs, ∀ q, ⟨p, none, q⟩ ∈ n.edges → q ∈ qs

theorem mem_closure_iff_path {n : Nfa} {qs : List State} {q : State} :
    q ∈ n.closure qs ↔ ∃ p ∈ qs, n.Path p [] q := by
  rw [mem_closure, reachable_silent_iff]

theorem silentClosed_closure (n : Nfa) (qs : List State) : n.SilentClosed (n.closure qs) := by
  intro p member q edge
  rw [mem_closure] at member ⊢
  exact member.step (mem_next_silent.2 edge)

theorem silentClosed_initial (n : Nfa) : n.SilentClosed n.initial := n.silentClosed_closure _

theorem silentClosed_step (n : Nfa) (qs : StateSet) (c : Char) : n.SilentClosed (n.step qs c) :=
  n.silentClosed_closure _

theorem SilentClosed.mem_of_path {n : Nfa} {qs : StateSet} (closed : n.SilentClosed qs)
    {p q : State} (member : p ∈ qs) (path : n.Path p [] q) : q ∈ qs := by
  generalize empty : ([] : List Char) = w at path
  induction path with
  | here q => exact member
  | silent edge _ ih => exact ih (closed _ member _ edge) empty
  | letter _ _ _ => cases empty

/-- A path that spells a word takes silent edges, one edge with the first character, and the rest. -/
theorem Path.uncons {n : Nfa} {p r : State} {c : Char} {w : List Char}
    (path : n.Path p (c :: w) r) :
    ∃ q s, n.Path p [] q ∧ ⟨q, some c, s⟩ ∈ n.edges ∧ n.Path s w r := by
  generalize whole : c :: w = v at path
  induction path with
  | here q => cases whole
  | silent edge _ ih =>
    obtain ⟨q, s, lead, letter, rest⟩ := ih whole
    exact ⟨q, s, .silent edge lead, letter, rest⟩
  | letter edge rest _ =>
    cases whole
    exact ⟨_, _, .here _, edge, rest⟩

theorem mem_step_iff_path {n : Nfa} {qs : StateSet} {c : Char} {q : State} :
    q ∈ n.step qs c ↔ ∃ p ∈ qs, ∃ r, ⟨p, some c, r⟩ ∈ n.edges ∧ n.Path r [] q := by
  rw [step, mem_closure_iff_path]
  constructor
  · rintro ⟨r, moved, path⟩
    obtain ⟨p, member, edge⟩ := mem_moves.1 moved
    exact ⟨p, member, r, edge, path⟩
  · rintro ⟨p, member, r, edge, path⟩
    exact ⟨r, mem_moves.2 ⟨p, member, edge⟩, path⟩

theorem mem_after {n : Nfa} {qs : StateSet} (closed : n.SilentClosed qs) {w : List Char}
    {q : State} : q ∈ n.after qs w ↔ ∃ p ∈ qs, n.Path p w q := by
  induction w generalizing qs with
  | nil =>
    constructor
    · intro member
      exact ⟨q, member, .here q⟩
    · rintro ⟨p, member, path⟩
      exact closed.mem_of_path member path
  | cons c w ih =>
    rw [after_cons, ih (n.silentClosed_step qs c)]
    constructor
    · rintro ⟨s, moved, rest⟩
      obtain ⟨p, member, r, edge, lead⟩ := mem_step_iff_path.1 moved
      exact ⟨p, member, .letter edge (lead.append rest)⟩
    · rintro ⟨p, member, path⟩
      obtain ⟨r, s, lead, edge, rest⟩ := path.uncons
      exact ⟨s, mem_step_iff_path.2 ⟨r, closed.mem_of_path member lead, s, edge, .here s⟩, rest⟩

theorem mem_after_initial {n : Nfa} {w : List Char} {q : State} :
    q ∈ n.after n.initial w ↔ n.Path n.start w q := by
  rw [mem_after n.silentClosed_initial]
  constructor
  · rintro ⟨p, member, path⟩
    obtain ⟨s, root, lead⟩ := mem_closure_iff_path.1 member
    rw [List.mem_singleton] at root
    exact root ▸ lead.append path
  · intro path
    exact ⟨n.start, mem_closure_iff_path.2 ⟨_, List.mem_singleton_self _, .here _⟩, path⟩

theorem anyAccepting_iff {n : Nfa} {qs : StateSet} :
    n.anyAccepting qs = true ↔ ∃ q ∈ qs, q ∈ n.accepting := by
  simp [anyAccepting, isAccepting, SortedSet.mem_def]

theorem eq_empty_of_isEmpty {qs : StateSet} (none : qs.isEmpty = true) : qs = ∅ := by
  refine SortedSet.ext fun q => ?_
  rw [SortedSet.isEmpty, List.isEmpty_iff] at none
  simp [SortedSet.mem_def, none]

theorem initial_ne_empty (n : Nfa) : n.initial ≠ ∅ := by
  intro empty
  have mem : n.start ∈ n.initial := mem_closure.2 (.root (List.mem_singleton_self n.start))
  exact SortedSet.not_mem_empty n.start (empty ▸ mem)

theorem step_empty (n : Nfa) (c : Char) : n.step ∅ c = ∅ := by
  refine SortedSet.ext fun q => ?_
  simp [mem_step_iff_path]

theorem after_empty (n : Nfa) (w : List Char) : n.after ∅ w = ∅ := by
  induction w with
  | nil => rfl
  | cons c w ih => rw [after_cons, step_empty, ih]

/-- Giving up on the empty set is right, because nothing leads out of it. -/
theorem acceptsFrom_eq (n : Nfa) (qs : StateSet) (w : List Char) :
    n.acceptsFrom qs w = n.anyAccepting (n.after qs w) := by
  induction w generalizing qs with
  | nil => rfl
  | cons c w ih =>
    rw [acceptsFrom, after_cons]
    split
    next none =>
      rw [eq_empty_of_isEmpty none, step_empty, after_empty]
      rfl
    · exact ih _

theorem accepts_eq (n : Nfa) (w : List Char) :
    n.accepts w = n.anyAccepting (n.after n.initial w) := n.acceptsFrom_eq _ w

theorem accepts_iff_path {n : Nfa} {w : List Char} :
    n.accepts w = true ↔ ∃ q ∈ n.accepting, n.Path n.start w q := by
  rw [accepts_eq, anyAccepting_iff]
  constructor
  · rintro ⟨q, member, accepting⟩
    exact ⟨q, accepting, mem_after_initial.1 member⟩
  · rintro ⟨q, accepting, path⟩
    exact ⟨q, mem_after_initial.2 path, accepting⟩

end Lexing.Nfa
