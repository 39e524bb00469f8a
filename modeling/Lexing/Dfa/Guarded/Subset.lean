import Lexing.Dfa.Built
import Lexing.Dfa.Guarded.Table
import Std.Data.TreeMap

/- Determinization with a queue of sets. A set that is found for the first time becomes the next state, and
it waits in the queue until the transitions of this state are entered. The empty set never waits: its
state is made when a character leads nowhere for the first time, and every character leads from it to
itself. -/

set_option autoImplicit false

namespace Lexing.Dfa.Guarded

/-- Enters a transition. An unknown character is passed over. -/
def connect (d : Dfa) (source : State) (c : Char) (target : State) : Option Dfa :=
  match d.alphabet.index? c with
  | none => some d
  | some i => do
    let table ← write? d.table (source * d.alphabet.size + i) (some target)
    return { d with table }

def describe (n : Nfa) (d : Dfa) (q : State) (qs : StateSet) : Option Dfa := do
  let accepting ← write? d.accepting q (n.anyAccepting qs)
  let origins ← write? d.origins q qs
  return { d with accepting, origins }

/-- An automaton whose states are made while sets are found. -/
structure Growth where
  dfa : Dfa
  /-- The states of the sets that have been found, the empty one apart. -/
  numbers : Std.TreeMap StateSet State
  /-- The sets whose transitions have yet to be entered. -/
  queue : List StateSet
  /-- The state of the empty set, if that has been found. -/
  sink : Option State

namespace Growth

/-- The state of the empty set, which may have to be made. -/
def sinkState (n : Nfa) (g : Growth) : Option (State × Growth) :=
  match g.sink with
  | some q => some (q, g)
  | none => do
    let q := g.dfa.numStates
    let dfa ← n.alphabet.toList.foldlM (fun d c => connect d q c q) g.dfa.addState
    return (q, { g with dfa, sink := some q })

/-- The state of a set that is not empty. If it has to be made, the set is queued. -/
def setState (n : Nfa) (g : Growth) (qs : StateSet) : Option (State × Growth) :=
  match g.numbers[qs]? with
  | some q => some (q, g)
  | none => do
    let q := g.dfa.numStates
    let dfa ← describe n g.dfa.addState q qs
    return (q, { g with dfa, numbers := g.numbers.insert qs q, queue := g.queue ++ [qs] })

def stateOf (n : Nfa) (g : Growth) (qs : StateSet) : Option (State × Growth) :=
  if qs.isEmpty then g.sinkState n else g.setState n qs

/-- Enters the transition of one character from a set and its state. -/
def follow (n : Nfa) (qs : StateSet) (source : State) (g : Growth) (c : Char) : Option Growth := do
  let (target, g) ← g.stateOf n (n.step qs c)
  let dfa ← connect g.dfa source c target
  return { g with dfa }

def visit (n : Nfa) (g : Growth) (qs : StateSet) : Option Growth := do
  let source ← g.numbers[qs]?
  n.alphabet.toList.foldlM (follow n qs source) g

/-- How many of some sets have yet to be found or to leave the queue. -/
def todo (sets : List StateSet) (g : Growth) : Nat :=
  (sets.filter (· ∉ g.numbers)).length + g.queue.length

theorem todo_sinkState {n : Nfa} {sets : List StateSet} {g h : Growth} {q : State}
    (made : g.sinkState n = some (q, h)) : h.todo sets = g.todo sets := by
  unfold sinkState at made
  split at made
  · cases made
    rfl
  · obtain ⟨dfa, _, made⟩ := Option.bind_eq_some_iff.1 made
    cases made
    rfl

/-- A set that is queued has been found. -/
theorem todo_setState {n : Nfa} {sets : List StateSet} {g h : Growth} {qs : StateSet} {q : State}
    (possible : qs ∈ sets) (made : g.setState n qs = some (q, h)) : h.todo sets ≤ g.todo sets := by
  unfold setState at made
  split at made
  · cases made
    exact Nat.le_refl _
  next unknown =>
    obtain ⟨dfa, _, made⟩ := Option.bind_eq_some_iff.1 made
    cases made
    have absent : qs ∉ g.numbers := by
      simp [Std.TreeMap.mem_iff_isSome_getElem?, unknown]
    have fewer : (sets.filter (· ∉ g.numbers.insert qs g.dfa.numStates)).length <
        (sets.filter (· ∉ g.numbers)).length := by
      have split : sets.filter (· ∉ g.numbers.insert qs g.dfa.numStates) =
          (sets.filter (· ∉ g.numbers)).filter (· ∉ g.numbers.insert qs g.dfa.numStates) := by
        rw [List.filter_filter]
        refine List.filter_congr fun rs _ => ?_
        by_cases old : rs ∈ g.numbers <;> simp [Std.TreeMap.mem_insert, old]
      rw [split, List.length_filter_lt_length_iff_exists]
      exact ⟨qs, by simp [possible, absent], by simp⟩
    show _ + (g.queue ++ [qs]).length ≤ _
    rw [List.length_append, List.length_singleton, todo]
    dsimp only
    omega

theorem todo_visit {n : Nfa} {sets : List StateSet}
    (possible : ∀ qs, ∀ rs ∈ n.powerset.next qs, rs ∈ sets) {g h : Growth} {qs : StateSet}
    (visited : g.visit n qs = some h) : h.todo sets ≤ g.todo sets := by
  obtain ⟨source, _, looped⟩ := Option.bind_eq_some_iff.1 visited
  refine foldlM_keeps (fun u => u.todo sets ≤ g.todo sets) (fun u c letter v followed before => ?_)
    (Nat.le_refl _) looped
  refine Nat.le_trans ?_ before
  obtain ⟨⟨target, after⟩, made, followed⟩ := Option.bind_eq_some_iff.1 followed
  obtain ⟨dfa, _, followed⟩ := Option.bind_eq_some_iff.1 followed
  cases followed
  have step : n.step qs c ∈ sets := by
    refine possible qs _ ?_
    rw [show n.powerset.next qs = n.successors qs from rfl, Nfa.successors_eq_map_step]
    exact List.mem_map.2 ⟨c, letter, rfl⟩
  show after.todo sets ≤ _
  unfold stateOf at made
  split at made
  · exact Nat.le_of_eq (todo_sinkState made)
  · exact todo_setState step made

def drain (n : Nfa) : Growth → Option Dfa
  | ⟨dfa, _, [], _⟩ => some dfa
  | ⟨dfa, numbers, qs :: rest, sink⟩ =>
    match _ : visit n ⟨dfa, numbers, rest, sink⟩ qs with
    | none => none
    | some after => drain n after
termination_by g => g.todo n.powerset.finite.choose
decreasing_by
  have visited : visit n ⟨dfa, numbers, rest, sink⟩ qs = some after := ‹_›
  have le := todo_visit n.powerset.finite.choose_spec visited
  simp only [todo, List.length_cons] at le ⊢
  omega

end Growth

def determinize (n : Nfa) : Option Dfa := do
  let blank := Dfa.new n.alphabet.toList
  let dfa ← describe n blank blank.start n.initial
  Growth.drain n ⟨dfa, (∅ : Std.TreeMap StateSet State).insert n.initial blank.start, [n.initial], none⟩

end Lexing.Dfa.Guarded
