import Lexing.Graph
import Lexing.Grouped
import Lexing.Nfa.Basic

set_option autoImplicit false

namespace Lexing.Nfa

def silentPairs (n : Nfa) : List (State × State) :=
  n.edges.toList.filterMap fun e =>
    match e.label with
    | none => some (e.source, e.target)
    | some _ => none

theorem mem_silentPairs {n : Nfa} {p q : State} :
    (p, q) ∈ n.silentPairs ↔ ⟨p, none, q⟩ ∈ n.edges := by
  rw [silentPairs, List.mem_filterMap]
  constructor
  · intro h
    obtain ⟨⟨source, label, target⟩, mem, result⟩ := h
    cases label with
    | none =>
      cases result
      exact mem
    | some c => cases result
  · intro mem
    exact ⟨_, mem, rfl⟩

def silent (n : Nfa) : Graph State := .ofPairs n.silentPairs

theorem mem_next_silent {n : Nfa} {p q : State} :
    q ∈ n.silent.next p ↔ ⟨p, none, q⟩ ∈ n.edges := by
  rw [silent, Graph.mem_next_ofPairs, mem_silentPairs]

/-- The states that silent edges lead to from some states, those states included. -/
def closure (n : Nfa) (qs : List State) : StateSet := .ofList (n.silent.explore qs)

theorem mem_closure {n : Nfa} {qs : List State} {q : State} :
    q ∈ n.closure qs ↔ n.silent.Reachable qs q := by
  rw [closure, SortedSet.mem_ofList, Graph.mem_explore]

/-- The characters on the edges that leave some states, each with the end of its edge. -/
def outgoing (n : Nfa) (qs : StateSet) : List (Char × State) :=
  n.edges.toList.filterMap fun e =>
    match e.label with
    | none => none
    | some c => if e.source ∈ qs then some (c, e.target) else none

theorem mem_outgoing {n : Nfa} {qs : StateSet} {c : Char} {q : State} :
    (c, q) ∈ n.outgoing qs ↔ ∃ p ∈ qs, ⟨p, some c, q⟩ ∈ n.edges := by
  rw [outgoing, List.mem_filterMap]
  constructor
  · intro h
    obtain ⟨⟨source, label, target⟩, mem, left⟩ := h
    cases label with
    | none => cases left
    | some letter =>
      obtain ⟨member, rfl, rfl⟩ : source ∈ qs ∧ letter = c ∧ target = q := by simpa using left
      exact ⟨source, member, mem⟩
  · intro h
    obtain ⟨p, member, mem⟩ := h
    exact ⟨_, mem, by simp [member]⟩

/-- Where the edges with one character lead from a set of states. -/
def moves (n : Nfa) (qs : StateSet) (c : Char) : List State := attached c (n.outgoing qs)

theorem mem_moves {n : Nfa} {qs : StateSet} {c : Char} {q : State} :
    q ∈ n.moves qs c ↔ ∃ p ∈ qs, ⟨p, some c, q⟩ ∈ n.edges := by
  rw [moves, mem_attached, mem_outgoing]

/-- Where one character leads from a set of states. -/
def step (n : Nfa) (qs : StateSet) (c : Char) : StateSet := n.closure (n.moves qs c)

theorem mem_step {n : Nfa} {qs : StateSet} {c : Char} {q : State} :
    q ∈ n.step qs c ↔ n.silent.Reachable (n.moves qs c) q := mem_closure

/-- Where the characters of the alphabet lead from a set of states, in order. Many of them may lead
to the same states, and the closure of these is computed once. -/
def successors (n : Nfa) (qs : StateSet) : List StateSet :=
  let silent := n.silent
  let outgoing := grouped (n.outgoing qs)
  mapTabulated (fun moved => .ofList (silent.explore moved))
    (n.alphabet.toList.map fun c => outgoing.getD c [])

theorem successors_eq_map_step (n : Nfa) (qs : StateSet) :
    n.successors qs = n.alphabet.toList.map (n.step qs) := by
  simp only [successors, mapTabulated_eq_map, List.map_map, getD_grouped]
  rfl

/-- The states before the first character is read. -/
def initial (n : Nfa) : StateSet := n.closure [n.start]

def anyAccepting (n : Nfa) (qs : StateSet) : Bool := qs.toList.any n.isAccepting

/-- Whether a word leads from a set of states to acceptance. Nothing can be read from no state. -/
def acceptsFrom (n : Nfa) (qs : StateSet) : List Char → Bool
  | [] => n.anyAccepting qs
  | c :: rest => if qs.isEmpty then false else n.acceptsFrom (n.step qs c) rest

def accepts (n : Nfa) (word : List Char) : Bool := n.acceptsFrom n.initial word

/-- There is a path from one state to another whose labels spell a word. -/
inductive Path (n : Nfa) : State → List Char → State → Prop where
  | here (q : State) : Path n q [] q
  | silent {p q r : State} {w : List Char} :
      ⟨p, none, q⟩ ∈ n.edges → Path n q w r → Path n p w r
  | letter {p q r : State} {c : Char} {w : List Char} :
      ⟨p, some c, q⟩ ∈ n.edges → Path n q w r → Path n p (c :: w) r

theorem Path.append {n : Nfa} {p q r : State} {u v : List Char}
    (first : n.Path p u q) (second : n.Path q v r) : n.Path p (u ++ v) r := by
  induction first with
  | here q => exact second
  | silent edge _ ih => exact .silent edge (ih second)
  | letter edge _ ih => exact .letter edge (ih second)

/-- Edges of the automaton that lead, one after the other, from one state to another. -/
def Leads (n : Nfa) (p : State) : List Edge → State → Prop
  | [], q => p = q
  | e :: rest, q => e ∈ n.edges ∧ e.source = p ∧ n.Leads e.target rest q

/-- There is a path that spells a word exactly if there are edges whose labels spell it. -/
theorem path_iff_leads {n : Nfa} {p q : State} {w : List Char} :
    n.Path p w q ↔ ∃ trail, n.Leads p trail q ∧ trail.filterMap Edge.label = w := by
  constructor
  · intro path
    induction path with
    | here q => exact ⟨[], rfl, rfl⟩
    | silent edge _ ih =>
      obtain ⟨trail, leads, spelled⟩ := ih
      exact ⟨_ :: trail, ⟨edge, rfl, leads⟩, spelled⟩
    | letter edge _ ih =>
      obtain ⟨trail, leads, spelled⟩ := ih
      exact ⟨_ :: trail, ⟨edge, rfl, leads⟩, congrArg _ spelled⟩
  · rintro ⟨trail, leads, rfl⟩
    induction trail generalizing p with
    | nil => exact leads ▸ .here p
    | cons e rest ih =>
      obtain ⟨source, label, target⟩ := e
      obtain ⟨edge, rfl, later⟩ := leads
      cases label with
      | none => exact .silent edge (ih later)
      | some c => exact .letter edge (ih later)

/-- Silent walks are the paths that spell nothing. -/
theorem reachable_silent_iff {n : Nfa} {qs : List State} {q : State} :
    n.silent.Reachable qs q ↔ ∃ p ∈ qs, n.Path p [] q := by
  constructor
  · intro h
    induction h with
    | root member => exact ⟨_, member, .here _⟩
    | step _ edge ih =>
      obtain ⟨p, member, path⟩ := ih
      exact ⟨p, member, path.append (.silent (mem_next_silent.1 edge) (.here _))⟩
  · intro h
    obtain ⟨p, member, path⟩ := h
    have start : n.silent.Reachable qs p := .root member
    clear member
    generalize empty : ([] : List Char) = w at path
    induction path with
    | here q => exact start
    | silent edge _ ih => exact ih (start.step (mem_next_silent.2 edge)) empty
    | letter _ _ _ => cases empty

end Lexing.Nfa
