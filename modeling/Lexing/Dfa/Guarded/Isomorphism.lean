import Lexing.Dfa.Guarded.Table

set_option autoImplicit false

namespace Lexing.Dfa.Guarded

/-- The partners found so far in both directions, and the pairs whose successors have not been looked
at. -/
structure Pairing where
  forward : Array (Option State)
  backward : Array (Option State)
  queue : List (State × State)

namespace Pairing

/-- Makes two states partners. There is no result inside if one of them has another partner. -/
def link (s : Pairing) (p q : State) : Option (Option Pairing) := do
  let right ← s.forward[p]?
  let left ← s.backward[q]?
  match right, left with
  | none, none =>
    let forward ← write? s.forward p (some q)
    let backward ← write? s.backward q (some p)
    return some ⟨forward, backward, s.queue ++ [(p, q)]⟩
  | some q', some p' => return if q' = q ∧ p' = p then some s else none
  | _, _ => return none

def follow (a b : Dfa) (p q : State) (s : Pairing) (c : Char) : Option (Option Pairing) := do
  let left ← next a p c
  let right ← next b q c
  match left, right with
  | none, none => return some s
  | some x, some y => s.link x y
  | _, _ => return none

def followAll (a b : Dfa) (p q : State) (s : Pairing) : List Char → Option (Option Pairing)
  | [] => some (some s)
  | c :: rest =>
    match follow a b p q s c with
    | none => none
    | some none => some none
    | some (some after) => followAll a b p q after rest

def visit (a b : Dfa) (s : Pairing) (p q : State) : Option (Option Pairing) := do
  let left ← a.accepting[p]?
  let right ← b.accepting[q]?
  if left = right then s.followAll a b p q a.alphabet.toList else return none

/-- How many states have yet to get a partner or to leave the queue. -/
def todo (s : Pairing) : Nat := s.forward.count none + s.queue.length

theorem todo_link {s t : Pairing} {p q : State} (linked : s.link p q = some (some t)) :
    t.todo = s.todo := by
  obtain ⟨right, free, linked⟩ := Option.bind_eq_some_iff.1 linked
  obtain ⟨left, _, linked⟩ := Option.bind_eq_some_iff.1 linked
  cases right with
  | none =>
    cases left with
    | none =>
      have less := count_setIfInBounds free (Option.some_ne_none q)
      obtain ⟨forward, first, linked⟩ := Option.bind_eq_some_iff.1 linked
      obtain ⟨backward, _, linked⟩ := Option.bind_eq_some_iff.1 linked
      obtain ⟨_, rfl⟩ := write?_eq_some first
      cases linked
      show (s.forward.setIfInBounds p (some q)).count none + (s.queue ++ [(p, q)]).length = _
      rw [List.length_append, List.length_singleton, todo]
      omega
    | some p' => cases linked
  | some q' =>
    cases left with
    | none => cases linked
    | some p' =>
      have same := Option.some.inj linked
      split at same
      · exact Option.some.inj same ▸ rfl
      · cases same

theorem todo_follow {a b : Dfa} {s t : Pairing} {p q : State} {c : Char}
    (followed : s.follow a b p q c = some (some t)) : t.todo = s.todo := by
  obtain ⟨left, _, followed⟩ := Option.bind_eq_some_iff.1 followed
  obtain ⟨right, _, followed⟩ := Option.bind_eq_some_iff.1 followed
  cases left with
  | none =>
    cases right with
    | none => exact Option.some.inj (Option.some.inj followed) ▸ rfl
    | some y => cases followed
  | some x =>
    cases right with
    | none => cases followed
    | some y => exact todo_link followed

theorem todo_followAll {a b : Dfa} {s t : Pairing} {p q : State} {letters : List Char}
    (followed : s.followAll a b p q letters = some (some t)) : t.todo = s.todo := by
  induction letters generalizing s with
  | nil => exact Option.some.inj (Option.some.inj followed) ▸ rfl
  | cons c rest ih =>
    rw [followAll] at followed
    split at followed
    · cases followed
    · cases followed
    next after first => rw [ih followed, todo_follow first]

theorem todo_visit {a b : Dfa} {s t : Pairing} {p q : State}
    (visited : s.visit a b p q = some (some t)) : t.todo = s.todo := by
  obtain ⟨left, _, visited⟩ := Option.bind_eq_some_iff.1 visited
  obtain ⟨right, _, visited⟩ := Option.bind_eq_some_iff.1 visited
  split at visited
  · exact todo_followAll visited
  · cases visited

/-- Compares partners until the queue is empty, and tells who has a partner then. -/
def search (a b : Dfa) : Pairing → Option (Option (Array (Option State)))
  | ⟨forward, _, []⟩ => some (some forward)
  | ⟨forward, backward, (p, q) :: rest⟩ =>
    match _ : visit a b ⟨forward, backward, rest⟩ p q with
    | none => none
    | some none => some none
    | some (some after) => search a b after
termination_by s => s.todo
decreasing_by
  have visited : visit a b ⟨forward, backward, rest⟩ p q = some (some after) := ‹_›
  rw [todo_visit visited]
  simp [todo]

end Pairing

def isIsomorphic (a b : Dfa) : Option Bool :=
  if a.alphabet = b.alphabet ∧ a.numStates = b.numStates then do
    let forward ← write? (Array.replicate a.numStates none) a.start (some b.start)
    let backward ← write? (Array.replicate b.numStates none) b.start (some a.start)
    let found ← Pairing.search a b ⟨forward, backward, [(a.start, b.start)]⟩
    match found with
    | none => return false
    | some partners => return partners.all Option.isSome
  else some false

end Lexing.Dfa.Guarded
