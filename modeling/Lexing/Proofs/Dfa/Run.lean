import Lexing.Dfa.Basic
import Lexing.Proofs.Dfa.Table

set_option autoImplicit false

namespace Lexing.Dfa

variable {d : Dfa}

@[simp] theorem run?_nil (d : Dfa) (q : State) : d.run? q [] = some q := rfl

theorem run?_cons (d : Dfa) (q : State) (c : Char) (w : List Char) :
    d.run? q (c :: w) = (d.next? q c).bind fun p => d.run? p w := by
  rw [run?]
  cases d.next? q c <;> rfl

theorem run?_append (d : Dfa) (q : State) (u v : List Char) :
    d.run? q (u ++ v) = (d.run? q u).bind fun p => d.run? p v := by
  induction u generalizing q with
  | nil => rfl
  | cons c u ih =>
    rw [List.cons_append, run?_cons, run?_cons, Option.bind_assoc]
    exact Option.bind_congr fun p _ => ih p

theorem WellFormed.run?_lt (wf : d.WellFormed) {p q : State} {w : List Char}
    (inside : p < d.numStates) (run : d.run? p w = some q) : q < d.numStates := by
  induction w generalizing p with
  | nil => exact Option.some.inj run ▸ inside
  | cons c w ih =>
    rw [run?_cons, Option.bind_eq_some_iff] at run
    obtain ⟨r, next, rest⟩ := run
    exact ih (wf.next?_lt next) rest

/-- A run reads only characters of the alphabet. -/
theorem mem_alphabet_of_run? {p q : State} {w : List Char} (run : d.run? p w = some q) :
    ∀ c ∈ w, c ∈ d.alphabet := by
  induction w generalizing p with
  | nil => exact fun c mem => absurd mem List.not_mem_nil
  | cons c w ih =>
    rw [run?_cons, Option.bind_eq_some_iff] at run
    obtain ⟨r, next, rest⟩ := run
    intro a mem
    rcases List.mem_cons.1 mem with rfl | later
    · refine Classical.byContradiction fun unknown => ?_
      rw [next?_eq_none_of_not_mem unknown] at next
      cases next
    · exact ih rest a later

/-- The run of a word that is not empty ends with a transition. -/
theorem exists_next?_of_run? {p q : State} {c : Char} {w : List Char}
    (run : d.run? p (c :: w) = some q) : ∃ r a, d.next? r a = some q := by
  induction w generalizing p c with
  | nil =>
    rw [run?_cons, Option.bind_eq_some_iff] at run
    obtain ⟨r, next, same⟩ := run
    exact ⟨p, c, Option.some.inj same ▸ next⟩
  | cons a w ih =>
    rw [run?_cons, Option.bind_eq_some_iff] at run
    obtain ⟨r, _, rest⟩ := run
    exact ih rest

/-- Without gaps, every word of the alphabet has a run. -/
theorem WellFormed.exists_run?_of_isTotal (wf : d.WellFormed) (total : d.isTotal = true) {q : State}
    {w : List Char} (inside : q < d.numStates) (known : ∀ c ∈ w, c ∈ d.alphabet) :
    ∃ p, d.run? q w = some p := by
  induction w generalizing q with
  | nil => exact ⟨q, rfl⟩
  | cons c w ih =>
    have defined := wf.isTotal_iff.1 total q inside c (known c List.mem_cons_self)
    obtain ⟨r, next⟩ := Option.isSome_iff_exists.1 defined
    obtain ⟨p, run⟩ := ih (wf.next?_lt next) fun a mem => known a (List.mem_cons_of_mem c mem)
    refine ⟨p, ?_⟩
    rw [run?_cons, next, Option.bind_some, run]

/-- Whether the run of a word from a state ends in acceptance, if it is defined. -/
def outcome (d : Dfa) (q : State) (w : List Char) : Option Bool :=
  (d.run? q w).map d.isAccepting

@[simp] theorem outcome_nil (d : Dfa) (q : State) : d.outcome q [] = some (d.isAccepting q) := rfl

/-- The outcomes of a word are the same if and only if its runs are both undefined, or both defined
and end in states of equal acceptance. -/
theorem outcome_eq_iff {a b : Dfa} {p q : State} {w : List Char} : a.outcome p w = b.outcome q w ↔
    (a.run? p w = none ∧ b.run? q w = none) ∨
      ∃ x y, a.run? p w = some x ∧ b.run? q w = some y ∧ a.isAccepting x = b.isAccepting y := by
  unfold outcome
  cases a.run? p w <;> cases b.run? q w <;> simp

theorem outcome_append (d : Dfa) (q : State) (u v : List Char) :
    d.outcome q (u ++ v) = (d.run? q u).bind fun p => d.outcome p v := by
  rw [outcome, run?_append, Option.map_bind]
  rfl

theorem outcome_cons (d : Dfa) (q : State) (c : Char) (w : List Char) :
    d.outcome q (c :: w) = (d.next? q c).bind fun p => d.outcome p w := by
  rw [outcome, run?_cons, Option.map_bind]
  rfl

/-- A character outside the alphabet has no outcome. -/
theorem outcome_unknown {q : State} {v : List Char} (unknown : ¬ ∀ c ∈ v, c ∈ d.alphabet) :
    d.outcome q v = none := by
  rw [outcome, Option.map_eq_none_iff]
  cases run : d.run? q v with
  | none => rfl
  | some x => exact absurd (mem_alphabet_of_run? run) unknown

theorem accepts_eq_outcome (d : Dfa) (w : List Char) :
    d.accepts w = (d.outcome d.start w).getD false := by
  rw [accepts, outcome]
  cases d.run? d.start w <;> rfl

/-- A word that has a run has a verdict. -/
theorem outcome_eq_accepts {d : Dfa} {q : State} {w : List Char}
    (run : d.run? d.start w = some q) : d.outcome d.start w = some (d.accepts w) := by
  rw [accepts_eq_outcome, outcome, run]
  rfl

/-- Where a word leads decides with which continuations it is accepted. -/
theorem accepts_append (d : Dfa) (u v : List Char) :
    d.accepts (u ++ v) = ((d.run? d.start u).bind fun q => d.outcome q v).getD false := by
  rw [accepts_eq_outcome, outcome_append]

/-- The same automata, except for what their states stand for. -/
structure Coincide (a b : Dfa) : Prop where
  alphabet_eq : a.alphabet = b.alphabet
  numStates_eq : a.numStates = b.numStates
  start_eq : a.start = b.start
  isAccepting_eq : ∀ q, a.isAccepting q = b.isAccepting q
  next?_eq : ∀ q c, a.next? q c = b.next? q c

/-- An automaton without the field that tells what its states stand for. -/
def bare (d : Dfa) : Dfa := { d with origins := #[] }

theorem coincide_of_bare_eq {a b : Dfa} (equal : a.bare = b.bare) : Coincide a b where
  alphabet_eq := show a.bare.alphabet = b.bare.alphabet by rw [equal]
  numStates_eq := show a.bare.numStates = b.bare.numStates by rw [equal]
  start_eq := show a.bare.start = b.bare.start by rw [equal]
  isAccepting_eq q := show a.bare.isAccepting q = b.bare.isAccepting q by rw [equal]
  next?_eq q c := show a.bare.next? q c = b.bare.next? q c by rw [equal]

namespace Coincide

variable {a b : Dfa}

theorem run?_eq (coincide : Coincide a b) (q : State) (w : List Char) :
    a.run? q w = b.run? q w := by
  induction w generalizing q with
  | nil => rfl
  | cons c w ih =>
    rw [run?_cons, run?_cons, coincide.next?_eq]
    exact Option.bind_congr fun p _ => ih p

theorem table_eq (coincide : Coincide a b) (left : a.WellFormed) (right : b.WellFormed) :
    a.table = b.table := by
  have sizes : a.table.size = b.table.size := by
    rw [left.table_size, right.table_size, coincide.alphabet_eq]
    exact congrArg (· * b.alphabet.size) coincide.numStates_eq
  refine Array.ext sizes fun i insideA insideB => ?_
  obtain ⟨c, letterA, cellA⟩ := left.cell_eq_next? insideA
  obtain ⟨d, letterB, cellB⟩ := right.cell_eq_next? insideB
  rw [coincide.alphabet_eq] at letterA cellA
  obtain rfl := Option.some.inj (letterA.symm.trans letterB)
  rw [cellA, cellB, coincide.next?_eq]

theorem accepting_eq (coincide : Coincide a b) : a.accepting = b.accepting := by
  refine Array.ext coincide.numStates_eq fun q insideA insideB => ?_
  have same := coincide.isAccepting_eq q
  simpa [isAccepting, insideA, insideB] using same

theorem bare_eq (coincide : Coincide a b) (left : a.WellFormed) (right : b.WellFormed) :
    a.bare = b.bare := by
  rw [bare, bare, coincide.alphabet_eq, coincide.start_eq, coincide.table_eq left right,
    coincide.accepting_eq]

end Coincide

end Lexing.Dfa

namespace Lexing.Dfa

variable {d : Dfa}

theorem mem_acceptingStates_iff {q : State} :
    q ∈ d.acceptingStates ↔ q < d.numStates ∧ d.isAccepting q = true := by
  rw [acceptingStates, List.mem_filter, List.mem_range]

/-- Walking back from acceptance finds the states that some word leads from to acceptance. -/
theorem reachable_backwards_iff {q : State} (wf : d.WellFormed) :
    d.backwards.Reachable d.acceptingStates q ↔
      q < d.numStates ∧ ∃ w, d.outcome q w = some true := by
  constructor
  · intro walk
    induction walk with
    | root mem =>
      obtain ⟨inside, accepting⟩ := mem_acceptingStates_iff.1 mem
      exact ⟨inside, [], by rw [outcome_nil, accepting]⟩
    | step _ edge ih =>
      obtain ⟨_, w, accepted⟩ := ih
      obtain ⟨c, transition⟩ := mem_next_backwards.1 edge
      have next := mem_transitions_iff.1 transition
      refine ⟨wf.lt_of_next? next, c :: w, ?_⟩
      rw [outcome_cons, next, Option.bind_some, accepted]
  · rintro ⟨inside, w, accepted⟩
    induction w generalizing q with
    | nil =>
      rw [outcome_nil] at accepted
      exact .root (mem_acceptingStates_iff.2 ⟨inside, Option.some.inj accepted⟩)
    | cons c w ih =>
      rw [outcome_cons, Option.bind_eq_some_iff] at accepted
      obtain ⟨p, next, later⟩ := accepted
      have walk := ih (wf.next?_lt next) later
      exact walk.step (mem_next_backwards.2 ⟨c, mem_transitions_iff.2 next⟩)

/-- No word leads from an unknown state to acceptance. -/
theorem WellFormed.lt_of_outcome (wf : d.WellFormed) {q : State} {w : List Char}
    (accepted : d.outcome q w = some true) : q < d.numStates := by
  cases w with
  | nil =>
    refine Nat.lt_of_not_le fun outside => ?_
    rw [outcome_nil, isAccepting_eq_false_of_le outside] at accepted
    cases accepted
  | cons c w =>
    rw [outcome_cons, Option.bind_eq_some_iff] at accepted
    obtain ⟨p, next, _⟩ := accepted
    exact wf.lt_of_next? next

theorem getElem?_live_iff (wf : d.WellFormed) {q : State} :
    d.live[q]? = some true ↔ ∃ w, d.outcome q w = some true := by
  have found : d.live[q]? = some true ↔
      q < d.numStates ∧ d.backwards.Reachable d.acceptingStates q := by
    rw [← Graph.mem_explore, live, Array.getElem?_map]
    by_cases inside : q < d.numStates
    · simp [inside]
    · simp [inside]
  rw [found, reachable_backwards_iff wf]
  constructor
  · rintro ⟨_, _, reached⟩
    exact reached
  · rintro ⟨w, accepted⟩
    have inside := wf.lt_of_outcome accepted
    exact ⟨inside, inside, w, accepted⟩

theorem live_getD_iff (wf : d.WellFormed) {q : State} :
    d.live.getD q false = true ↔ ∃ w, d.outcome q w = some true := by
  rw [← getElem?_live_iff wf, Array.getD_eq_getD_getElem?]
  cases d.live[q]? <;> simp

end Lexing.Dfa
