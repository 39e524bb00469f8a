import Lexing.Graph.Stack
import Lexing.Nfa.Basic
import Std.Data.TreeMap

set_option autoImplicit false

namespace Lexing.Nfa

/-- What the edges have in common whose targets stand in one set. -/
structure Key where
  source : State
  label : Label
  deriving DecidableEq, Repr

instance : Ord Key where
  compare := compareLex (compareOn Key.source) (compareOn Key.label)

instance : Std.TransOrd Key :=
  inferInstanceAs (Std.TransCmp (compareLex (compareOn Key.source) (compareOn Key.label)))

instance : Std.LawfulEqOrd Key where
  eq_of_compare {a b} h := by
    have parts : compareLex (compareOn Key.source) (compareOn Key.label) a b = .eq := h
    rw [compareLex_eq_eq] at parts
    obtain ⟨source, label⟩ := a
    rw [Key.mk.injEq]
    exact ⟨Std.LawfulEqOrd.eq_of_compare parts.1, Std.LawfulEqOrd.eq_of_compare parts.2⟩

structure Keyed where
  alphabet : SortedSet Char
  numStates : Nat
  start : State
  transitions : Std.TreeMap Key StateSet
  accepting : StateSet

namespace Keyed

def new : Keyed := ⟨∅, 1, 0, ∅, ∅⟩

def grow (k : Keyed) (q : State) : Except EditError Keyed :=
  if q < k.numStates then .ok k
  else if q < maxStates then .ok { k with numStates := q + 1 }
  else .error .tooManyStates

/-- Puts a target into the set of its key, which may have to be made. -/
def file (transitions : Std.TreeMap Key StateSet) (key : Key) (target : State) :
    Std.TreeMap Key StateSet :=
  transitions.insert key ((transitions.getD key ∅).insert target)

def record (k : Keyed) (e : Edge) : Keyed :=
  { k with
    alphabet := match e.label with
      | none => k.alphabet
      | some c => k.alphabet.insert c
    transitions := file k.transitions ⟨e.source, e.label⟩ e.target }

def addEdge (k : Keyed) (e : Edge) : Keyed × Except EditError Unit :=
  match k.grow e.source with
  | .error error => (k, .error error)
  | .ok withSource =>
    match withSource.grow e.target with
    | .error error => (withSource, .error error)
    | .ok withBoth => (withBoth.record e, .ok ())

def setStart (k : Keyed) (q : State) : Keyed × Except EditError Unit :=
  if q < k.numStates then ({ k with start := q }, .ok ())
  else (k, .error (.unknownState q))

def addAccepting (k : Keyed) (q : State) : Keyed × Except EditError Unit :=
  if q < k.numStates then ({ k with accepting := k.accepting.insert q }, .ok ())
  else (k, .error (.unknownState q))

def apply (k : Keyed) : Edit → Keyed × Except EditError Unit
  | .addEdge e => k.addEdge e
  | .setStart q => k.setStart q
  | .addAccepting q => k.addAccepting q

def applyAll (k : Keyed) : List Edit → Keyed
  | [] => k
  | e :: rest => (k.apply e).1.applyAll rest

def edges (k : Keyed) : List Edge :=
  k.transitions.toList.flatMap fun (key, targets) =>
    targets.toList.map fun q => ⟨key.source, key.label, q⟩

theorem mem_edges {k : Keyed} {e : Edge} :
    e ∈ k.edges ↔
      ∃ targets, k.transitions[(⟨e.source, e.label⟩ : Key)]? = some targets ∧ e.target ∈ targets := by
  rw [edges, List.mem_flatMap]
  constructor
  · rintro ⟨⟨key, targets⟩, filed, member⟩
    obtain ⟨q, mem, rfl⟩ := List.mem_map.1 member
    exact ⟨targets, Std.TreeMap.mem_toList_iff_getElem?_eq_some.1 filed, mem⟩
  · rintro ⟨targets, filed, mem⟩
    exact ⟨(⟨e.source, e.label⟩, targets), Std.TreeMap.mem_toList_iff_getElem?_eq_some.2 filed,
      List.mem_map.2 ⟨e.target, mem, rfl⟩⟩

/-- The same automaton with its edges in one set. -/
def flatten (k : Keyed) : Nfa where
  alphabet := k.alphabet
  numStates := k.numStates
  start := k.start
  edges := .ofList k.edges
  accepting := k.accepting

end Keyed

end Lexing.Nfa

namespace Lexing.Nfa.Keyed

def targets (k : Keyed) (q : State) (label : Label) : List State :=
  match k.transitions[(⟨q, label⟩ : Key)]? with
  | none => []
  | some ends => ends.toList

theorem mem_targets {k : Keyed} {p q : State} {label : Label} :
    q ∈ k.targets p label ↔ ⟨p, label, q⟩ ∈ k.edges := by
  rw [targets, mem_edges]
  cases k.transitions[(⟨p, label⟩ : Key)]? with
  | none => simp
  | some ends => simp [SortedSet.mem_def]

def silent (k : Keyed) : Graph State where
  next q := k.targets q none
  finite := ⟨k.edges.map Edge.target, fun _ _ edge => List.mem_map.2 ⟨_, mem_targets.1 edge, rfl⟩⟩

def closure (k : Keyed) (qs : List State) : StateSet := k.silent.exploreStack qs

def step (k : Keyed) (qs : StateSet) (c : Char) : StateSet :=
  k.closure (qs.toList.flatMap fun q => k.targets q (some c))

def acceptsFrom (k : Keyed) (qs : StateSet) : List Char → Bool
  | [] => qs.toList.any fun q => q ∈ k.accepting
  | c :: rest => if qs.isEmpty then false else k.acceptsFrom (k.step qs c) rest

def accepts (k : Keyed) (word : List Char) : Bool := k.acceptsFrom (k.closure [k.start]) word

end Lexing.Nfa.Keyed
