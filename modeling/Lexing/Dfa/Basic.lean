import Lexing.Graph
import Lexing.State

set_option autoImplicit false

namespace Lexing

structure Dfa where
  alphabet : SortedSet Char
  start : State
  /-- The cell of a state and the `i`-th character is at `state * alphabet.size + i`. -/
  table : Array (Option State)
  /-- For each state, whether it accepts. -/
  accepting : Array Bool
  /-- For each state, the states of another automaton that it stands for. -/
  origins : Array StateSet
  deriving DecidableEq

namespace Dfa

/-- What every automaton that is built with the operations of this library fulfils. -/
structure WellFormed (d : Dfa) : Prop where
  nonempty : 0 < d.accepting.size
  table_size : d.table.size = d.accepting.size * d.alphabet.size
  origins_size : d.origins.size = d.accepting.size
  start_lt : d.start < d.accepting.size
  cell_lt : ∀ q, some q ∈ d.table → q < d.accepting.size

def numStates (d : Dfa) : Nat := d.accepting.size

/-- One state, which is the start and does not accept, and no transition. -/
def new (symbols : List Char) : Dfa :=
  let alphabet := SortedSet.ofList symbols
  ⟨alphabet, 0, Array.replicate alphabet.size none, #[false], #[∅]⟩

instance : Inhabited Dfa := ⟨new []⟩

def isAccepting (d : Dfa) (q : State) : Bool := d.accepting.getD q false

def acceptingStates (d : Dfa) : List State := (List.range d.numStates).filter d.isAccepting

def origin? (d : Dfa) (q : State) : Option StateSet := d.origins[q]?

/-- The successor of a state, unless the state or the character is unknown or there is a gap. -/
def next? (d : Dfa) (q : State) (c : Char) : Option State :=
  match d.alphabet.index? c with
  | none => none
  | some i => d.table.getD (q * d.alphabet.size + i) none

theorem mem_table_of_next? {d : Dfa} {p q : State} {c : Char} (h : d.next? p c = some q) :
    some q ∈ d.table := by
  rw [next?] at h
  split at h
  · cases h
  next i _ =>
    rw [Array.getD_eq_getD_getElem?] at h
    cases cell : d.table[p * d.alphabet.size + i]? with
    | none =>
      rw [cell] at h
      cases h
    | some content =>
      rw [cell, Option.getD_some] at h
      exact h ▸ Array.mem_of_getElem? cell

/-- The successors of a state on all characters of the alphabet in order. -/
def row (d : Dfa) (q : State) : List (Option State) :=
  let width := d.alphabet.size
  (List.range width).map fun i => d.table.getD (q * width + i) none

theorem next?_toList_getElem (d : Dfa) (q : State) (i : Nat) (h : i < d.alphabet.toList.length) :
    d.next? q d.alphabet.toList[i] = d.table.getD (q * d.alphabet.size + i) none := by
  rw [next?, SortedSet.index?_toList_getElem]

theorem row_eq_map_next? (d : Dfa) (q : State) : d.row q = d.alphabet.toList.map (d.next? q) := by
  apply List.ext_getElem
  · simp [row, SortedSet.size]
  · intro i left right
    have inside : i < d.alphabet.toList.length := by simpa using right
    simp only [row, List.getElem_map, List.getElem_range]
    exact (next?_toList_getElem d q i inside).symm

/-- All transitions by source and then character, read off the cells of the table. -/
def transitions (d : Dfa) : List (State × Char × State) :=
  let symbols := d.alphabet.toList.toArray
  d.table.toList.zipIdx.filterMap fun (cell, i) =>
    match cell, symbols[i % symbols.size]? with
    | some target, some c => some (i / symbols.size, c, target)
    | _, _ => none

def isTotal (d : Dfa) : Bool := d.table.all Option.isSome

/-- The state at the end of a word, if all transitions on the way are there. -/
def run? (d : Dfa) (q : State) : List Char → Option State
  | [] => some q
  | c :: rest =>
    match d.next? q c with
    | none => none
    | some target => d.run? target rest

def accepts (d : Dfa) (word : List Char) : Bool :=
  match d.run? d.start word with
  | none => false
  | some q => d.isAccepting q

def addState (d : Dfa) : Dfa :=
  { d with
    table := d.table ++ Array.replicate d.alphabet.size none
    accepting := d.accepting.push false
    origins := d.origins.push ∅ }

inductive Edit where
  | addState
  | setStart (q : State)
  | setAccepting (q : State) (value : Bool)
  | addTransition (source : State) (c : Char) (target : State)
  deriving DecidableEq, Repr

/-- The automaton after an edit, successful or not, and how the edit went: a new state is told. -/
def apply (d : Dfa) : Edit → Dfa × Except EditError (Option State)
  | .addState => (d.addState, .ok (some d.numStates))
  | .setStart q =>
    if q < d.numStates then ({ d with start := q }, .ok none)
    else (d, .error (.unknownState q))
  | .setAccepting q value =>
    if q < d.numStates then
      ({ d with accepting := d.accepting.setIfInBounds q value }, .ok none)
    else (d, .error (.unknownState q))
  | .addTransition source c target =>
    if d.numStates ≤ source then (d, .error (.unknownState source))
    else if d.numStates ≤ target then (d, .error (.unknownState target))
    else
      match d.alphabet.index? c with
      | none => (d, .error (.unknownSymbol c))
      | some i =>
        let cell := source * d.alphabet.size + i
        ({ d with table := d.table.setIfInBounds cell (some target) }, .ok none)

end Dfa

end Lexing

namespace Lexing.Dfa

def backwards (d : Dfa) : Graph State :=
  .ofPairs (d.transitions.map fun (source, _, target) => (target, source))

theorem mem_next_backwards {d : Dfa} {p q : State} :
    p ∈ d.backwards.next q ↔ ∃ c, (p, c, q) ∈ d.transitions := by
  rw [backwards, Graph.mem_next_ofPairs, List.mem_map]
  constructor
  · intro h
    obtain ⟨⟨source, c, target⟩, mem, result⟩ := h
    cases result
    exact ⟨c, mem⟩
  · intro h
    obtain ⟨c, mem⟩ := h
    exact ⟨_, mem, rfl⟩

/-- For each state, whether an accepting state can be reached from it. -/
def live (d : Dfa) : Array Bool :=
  let found := d.backwards.explore d.acceptingStates
  (Array.range d.numStates).map fun q => decide (q ∈ found)

end Lexing.Dfa
