import Lexing.Dfa.Basic
import Lexing.Guarded

set_option autoImplicit false

namespace Lexing.Dfa.Guarded

def next (d : Dfa) (q : State) (c : Char) : Option (Option State) :=
  if d.numStates ≤ q then some none
  else
    match d.alphabet.index? c with
    | none => some none
    | some i => d.table[q * d.alphabet.size + i]?

def acceptsFrom (d : Dfa) (q : State) : List Char → Option Bool
  | [] => some (d.isAccepting q)
  | c :: rest =>
    match next d q c with
    | none => none
    | some none => some false
    | some (some target) => acceptsFrom d target rest

def accepts (d : Dfa) (word : List Char) : Option Bool := acceptsFrom d d.start word

/-- The transition in a numbered cell of the table, if there is one. -/
def transition (d : Dfa) : Option State × Nat → Option (Option (State × Char × State))
  | (none, _) => some none
  | (some target, i) => do
    let (line, column) ← divMod? i d.alphabet.size
    let c ← d.alphabet.toList[column]?
    return some (line, c, target)

def transitions (d : Dfa) : Option (List (State × Char × State)) := do
  let found ← d.table.toList.zipIdx.mapM (transition d)
  return found.reduceOption

def setAccepting (d : Dfa) (q : State) (value : Bool) :
    Option (Dfa × Except EditError (Option State)) :=
  if q < d.numStates then do
    let accepting ← write? d.accepting q value
    return ({ d with accepting }, .ok none)
  else some (d, .error (.unknownState q))

def addTransition (d : Dfa) (source : State) (c : Char) (target : State) :
    Option (Dfa × Except EditError (Option State)) :=
  if d.numStates ≤ source then some (d, .error (.unknownState source))
  else if d.numStates ≤ target then some (d, .error (.unknownState target))
  else
    match d.alphabet.index? c with
    | none => some (d, .error (.unknownSymbol c))
    | some i => do
      let table ← write? d.table (source * d.alphabet.size + i) (some target)
      return ({ d with table }, .ok none)

/-- Two of the edits write at an index that they compute. -/
def apply (d : Dfa) : Edit → Option (Dfa × Except EditError (Option State))
  | .setAccepting q value => setAccepting d q value
  | .addTransition source c target => addTransition d source c target
  | e => some (d.apply e)

/-- For each state, the sources of the transitions to it. -/
def sources (d : Dfa) : Option (Array (List State)) := do
  let found ← transitions d
  found.foldlM (fun lists (source, _, target) => do
    let known ← lists[target]?
    write? lists target (known ++ [source])) (Array.replicate d.numStates [])

/-- The states that have been marked, and those whose sources have not been looked at. -/
structure Search where
  marked : Array Bool
  queue : List State

namespace Search

def mark (s : Search) (q : State) : Option Search :=
  match s.marked[q]? with
  | none => none
  | some true => some s
  | some false => do
    let marked ← write? s.marked q true
    return ⟨marked, s.queue ++ [q]⟩

def visit (lists : Array (List State)) (s : Search) (q : State) : Option Search := do
  let known ← lists[q]?
  known.foldlM mark s

/-- How many states have yet to be marked or to leave the queue. -/
def todo (s : Search) : Nat := s.marked.count false + s.queue.length

theorem todo_mark {s t : Search} {q : State} (marked : s.mark q = some t) : t.todo = s.todo := by
  unfold mark at marked
  split at marked
  · cases marked
  · exact Option.some.inj marked ▸ rfl
  next unmarked =>
    have less := count_setIfInBounds unmarked Bool.false_ne_true.symm
    obtain ⟨marked, written, result⟩ := Option.bind_eq_some_iff.1 marked
    obtain ⟨_, rfl⟩ := write?_eq_some written
    cases result
    show (s.marked.setIfInBounds q true).count false + (s.queue ++ [q]).length = _
    rw [List.length_append, List.length_singleton, todo]
    omega

theorem todo_visit {lists : Array (List State)} {s t : Search} {q : State}
    (visited : visit lists s q = some t) : t.todo = s.todo := by
  obtain ⟨known, _, looped⟩ := Option.bind_eq_some_iff.1 visited
  exact foldlM_keeps (fun u => u.todo = s.todo) (fun u p _ v marked before =>
    (todo_mark marked).trans before) rfl looped

def drain (lists : Array (List State)) : Search → Option (Array Bool)
  | ⟨marked, []⟩ => some marked
  | ⟨marked, q :: rest⟩ =>
    match _ : visit lists ⟨marked, rest⟩ q with
    | none => none
    | some after => drain lists after
termination_by s => s.todo
decreasing_by
  have visited : visit lists ⟨marked, rest⟩ q = some after := ‹_›
  rw [todo_visit visited]
  simp [todo]

end Search

def live (d : Dfa) : Option (Array Bool) := do
  let lists ← sources d
  let queue ← (List.range d.numStates).filterM fun q => d.accepting[q]?
  Search.drain lists ⟨d.accepting, queue⟩

end Lexing.Dfa.Guarded
