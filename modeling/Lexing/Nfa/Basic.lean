import Lexing.State

set_option autoImplicit false

namespace Lexing

/-- What an edge reads: one character, or nothing. -/
abbrev Label := Option Char

structure Edge where
  source : State
  label : Label
  target : State
  deriving DecidableEq, Repr

/-- Edges are ordered by source, then label with the silent one first, then target. -/
instance : Ord Edge where
  compare := compareLex (compareOn Edge.source)
    (compareLex (compareOn Edge.label) (compareOn Edge.target))

instance : Std.TransOrd Edge :=
  inferInstanceAs (Std.TransCmp (compareLex (compareOn Edge.source)
    (compareLex (compareOn Edge.label) (compareOn Edge.target))))

instance : Std.LawfulEqOrd Edge where
  eq_of_compare {a b} h := by
    have parts : compareLex (compareOn Edge.source)
        (compareLex (compareOn Edge.label) (compareOn Edge.target)) a b = .eq := h
    rw [compareLex_eq_eq, compareLex_eq_eq] at parts
    obtain ⟨source, label, target⟩ := a
    rw [Edge.mk.injEq]
    exact ⟨Std.LawfulEqOrd.eq_of_compare parts.1, Std.LawfulEqOrd.eq_of_compare parts.2.1,
      Std.LawfulEqOrd.eq_of_compare parts.2.2⟩

structure Nfa where
  /-- The characters that label some edge. -/
  alphabet : SortedSet Char
  numStates : Nat
  start : State
  edges : SortedSet Edge
  accepting : StateSet
  deriving DecidableEq

namespace Nfa

/-- One state, which is the start, and no edge. -/
def new : Nfa := ⟨∅, 1, 0, ∅, ∅⟩

instance : Inhabited Nfa := ⟨new⟩

def grow (n : Nfa) (q : State) : Except EditError Nfa :=
  if q < n.numStates then .ok n
  else if q < maxStates then .ok { n with numStates := q + 1 }
  else .error .tooManyStates

theorem grow_of_lt {n : Nfa} {q : State} (below : q < maxStates) :
    n.grow q = .ok { n with numStates := max n.numStates (q + 1) } := by
  rw [grow]
  by_cases inside : q < n.numStates
  · rw [if_pos inside, Nat.max_eq_left inside]
  · rw [if_neg inside, if_pos below, Nat.max_eq_right (Nat.le_succ_of_le (Nat.le_of_not_lt inside))]

def record (n : Nfa) (e : Edge) : Nfa :=
  { n with
    alphabet := match e.label with
      | none => n.alphabet
      | some c => n.alphabet.insert c
    edges := n.edges.insert e }

/-- Adds an edge. If its target cannot exist, the states up to its source have come into being all
the same. -/
def addEdge (n : Nfa) (e : Edge) : Nfa × Except EditError Unit :=
  match n.grow e.source with
  | .error error => (n, .error error)
  | .ok withSource =>
    match withSource.grow e.target with
    | .error error => (withSource, .error error)
    | .ok withBoth => (withBoth.record e, .ok ())

def setStart (n : Nfa) (q : State) : Nfa × Except EditError Unit :=
  if q < n.numStates then ({ n with start := q }, .ok ())
  else (n, .error (.unknownState q))

def addAccepting (n : Nfa) (q : State) : Nfa × Except EditError Unit :=
  if q < n.numStates then ({ n with accepting := n.accepting.insert q }, .ok ())
  else (n, .error (.unknownState q))

inductive Edit where
  | addEdge (e : Edge)
  | setStart (q : State)
  | addAccepting (q : State)
  deriving DecidableEq, Repr

/-- The automaton after an edit, successful or not, and how the edit went. -/
def apply (n : Nfa) : Edit → Nfa × Except EditError Unit
  | .addEdge e => n.addEdge e
  | .setStart q => n.setStart q
  | .addAccepting q => n.addAccepting q

/-- The automata that edits can make of the bare one, failed edits included. -/
inductive Built : Nfa → Prop where
  | new : Built new
  | edit {n : Nfa} (e : Edit) : Built n → Built (n.apply e).1

/-- Applies edits in order, those after a failure too. -/
def applyAll (n : Nfa) : List Edit → Nfa
  | [] => n
  | e :: rest => (n.apply e).1.applyAll rest

def applyAll? (n : Nfa) : List Edit → Option Nfa
  | [] => some n
  | e :: rest =>
    match n.apply e with
    | (after, .ok _) => after.applyAll? rest
    | (_, .error _) => none

/-- The bare automaton after an edge has been added for each of a list. -/
def ofEdges (es : List Edge) : Nfa where
  alphabet := .ofList (es.filterMap Edge.label)
  numStates := es.foldr (fun e size => max (max size (e.source + 1)) (e.target + 1)) 1
  start := 0
  edges := .ofList es
  accepting := ∅

theorem ofEdges_nil : ofEdges [] = new := rfl

theorem addEdge_ofEdges {es : List Edge} {e : Edge} (source : e.source < maxStates)
    (target : e.target < maxStates) : (ofEdges es).addEdge e = (ofEdges (e :: es), .ok ()) := by
  rw [addEdge, grow_of_lt source]
  dsimp only
  rw [grow_of_lt target]
  simp only [record, ofEdges, Prod.mk.injEq, Nfa.mk.injEq, and_true, List.foldr_cons, true_and]
  refine ⟨?_, SortedSet.ext fun a => by simp⟩
  cases label : e.label with
  | none => rw [List.filterMap_cons_none label]
  | some c => exact SortedSet.ext fun a => by simp [List.filterMap_cons_some label]

theorem built_ofEdges {es : List Edge}
    (below : ∀ e ∈ es, e.source < maxStates ∧ e.target < maxStates) : (ofEdges es).Built := by
  induction es with
  | nil => exact .new
  | cons e rest ih =>
    have edited := (ih fun a h => below a (List.mem_cons_of_mem _ h)).edit (.addEdge e)
    obtain ⟨source, target⟩ := below e List.mem_cons_self
    rwa [apply, addEdge_ofEdges source target] at edited

theorem Built.applyAll {n : Nfa} (built : Built n) (edits : List Edit) :
    Built (n.applyAll edits) := by
  induction edits generalizing n with
  | nil => exact built
  | cons e rest ih => exact ih (built.edit e)

theorem Built.applyAll? {n m : Nfa} {edits : List Edit} (built : Built n)
    (h : n.applyAll? edits = some m) : Built m := by
  induction edits generalizing n with
  | nil => exact Option.some.inj h ▸ built
  | cons e rest ih =>
    rw [Nfa.applyAll?] at h
    split at h
    next after _ result =>
      have edited := built.edit e
      rw [result] at edited
      exact ih edited h
    · cases h

def isAccepting (n : Nfa) (q : State) : Bool := q ∈ n.accepting

def targets (n : Nfa) (q : State) (label : Label) : List State :=
  n.edges.toList.filterMap fun e =>
    if e.label = label ∧ e.source = q then some e.target else none

theorem mem_targets {n : Nfa} {p q : State} {label : Label} :
    q ∈ n.targets p label ↔ ⟨p, label, q⟩ ∈ n.edges := by
  rw [targets, List.mem_filterMap]
  constructor
  · rintro ⟨⟨source, l, target⟩, mem, h⟩
    obtain ⟨⟨rfl, rfl⟩, rfl⟩ : (l = label ∧ source = p) ∧ target = q := by simpa using h
    exact mem
  · intro mem
    exact ⟨_, mem, by simp⟩

end Nfa

end Lexing
