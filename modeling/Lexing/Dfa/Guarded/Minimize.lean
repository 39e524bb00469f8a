import Lexing.Dfa.Basic
import Lexing.Guarded

/- Minimization by filling a table of marks, one for each pair of states. Pairs that differ in acceptance
are marked, then those that a character leads to a marked pair or to a gap and a state, until nothing
is left to mark. The states without a mark between them are gathered into classes, and the cells of
the new table are copied from the least states of the classes.

The marks are one array with an entry for each pair of states. All other arrays are as long as one of
the automaton that is minimized, which has room, so only the size of the marks and the indices into
them are computed in words. -/

set_option autoImplicit false

namespace Lexing.Dfa

/-- All pairs of states have room in one array of marks. -/
def MarksFit (d : Dfa) : Prop := d.numStates * d.numStates < arrayBound

instance (d : Dfa) : Decidable d.MarksFit :=
  inferInstanceAs (Decidable (d.numStates * d.numStates < arrayBound))

namespace Guarded

/-- Pairs of numbers below a bound, the greater one first, in the order of two nested loops. -/
def pairs (bound : Nat) : List (Nat × Nat) :=
  (List.range bound).flatMap fun p => (List.range p).map fun q => (p, q)

/-- Where the mark of a pair stands. The marks of one state are a row of `width` entries. -/
def markIndex (o : Overflow) (width p q : Nat) : Option Nat := do
  let line ← word? o (p * width)
  word? o (line + q)

def isMarked (o : Overflow) (width : Nat) (marked : Array Bool) (p q : Nat) : Option Bool := do
  let i ← markIndex o width p q
  marked[i]?

/-- Marks a pair both ways round. -/
def mark (o : Overflow) (width : Nat) (marked : Array Bool) (p q : Nat) : Option (Array Bool) := do
  let i ← markIndex o width p q
  let half ← write? marked i true
  let j ← markIndex o width q p
  write? half j true

def markAcceptance (o : Overflow) (d : Dfa) (marked : Array Bool) (pair : Nat × Nat) :
    Option (Array Bool) := do
  let left ← d.accepting[pair.1]?
  let right ← d.accepting[pair.2]?
  if left = right then return marked else mark o d.numStates marked pair.1 pair.2

def acceptanceMarks (o : Overflow) (d : Dfa) : Option (Array Bool) := do
  let size ← word? o (d.numStates * d.numStates)
  let unmarked ← flags? size
  (pairs d.numStates).foldlM (markAcceptance o d) unmarked

/-- Whether a character tells two states apart, by the marks so far. -/
def differAt (o : Overflow) (d : Dfa) (marked : Array Bool) (p q : State) (i : Nat) : Option Bool := do
  let left ← d.table[p * d.alphabet.size + i]?
  let right ← d.table[q * d.alphabet.size + i]?
  match left, right with
  | some x, some y => isMarked o d.numStates marked x y
  | none, none => return false
  | _, _ => return true

/-- Marks that change while all pairs are looked at once. -/
structure Round where
  marked : Array Bool
  changed : Bool

/-- Marks a pair if some character tells its states apart. -/
def Round.look (o : Overflow) (d : Dfa) (r : Round) (pair : Nat × Nat) : Option Round :=
  match isMarked o d.numStates r.marked pair.1 pair.2 with
  | none => none
  | some true => some r
  | some false => do
    let apart ← (List.range d.alphabet.size).anyM (differAt o d r.marked pair.1 pair.2)
    if apart then
      let marked ← mark o d.numStates r.marked pair.1 pair.2
      return ⟨marked, true⟩
    else return r

def round (o : Overflow) (d : Dfa) (marked : Array Bool) : Option Round :=
  (pairs d.numStates).foldlM (Round.look o d) ⟨marked, false⟩

variable {o : Overflow} {d : Dfa}

theorem mark_cases {width p q : Nat} {marked after : Array Bool}
    (done : mark o width marked p q = some after) :
    ∃ i j, markIndex o width p q = some i ∧ i < marked.size ∧
      after = (marked.setIfInBounds i true).setIfInBounds j true := by
  obtain ⟨i, straight, done⟩ := Option.bind_eq_some_iff.1 done
  obtain ⟨half, first, done⟩ := Option.bind_eq_some_iff.1 done
  obtain ⟨j, _, second⟩ := Option.bind_eq_some_iff.1 done
  obtain ⟨inside, rfl⟩ := write?_eq_some first
  obtain ⟨_, rfl⟩ := write?_eq_some second
  exact ⟨i, j, straight, inside, rfl⟩

theorem count_mark_lt {width p q : Nat} {marked after : Array Bool}
    (unmarked : isMarked o width marked p q = some false)
    (done : mark o width marked p q = some after) : after.count false < marked.count false := by
  obtain ⟨i, _, straight, _, rfl⟩ := mark_cases done
  rw [isMarked, straight] at unmarked
  have less := count_setIfInBounds unmarked Bool.false_ne_true.symm
  exact Nat.lt_of_le_of_lt (count_setIfInBounds_le _ _ Bool.false_ne_true.symm)
    (Nat.lt_of_succ_le (Nat.le_of_eq less))

/-- A look at a pair either changes nothing or marks something. -/
theorem look_cases {r s : Round} {pair : Nat × Nat} (looked : r.look o d pair = some s) :
    s = r ∨ s.changed = true ∧ s.marked.count false < r.marked.count false := by
  unfold Round.look at looked
  split at looked
  · cases looked
  · exact .inl (Option.some.inj looked).symm
  next unmarked =>
    obtain ⟨apart, _, looked⟩ := Option.bind_eq_some_iff.1 looked
    split at looked
    · obtain ⟨marked, done, result⟩ := Option.bind_eq_some_iff.1 looked
      cases result
      exact .inr ⟨rfl, count_mark_lt unmarked done⟩
    · exact .inl (Option.some.inj looked).symm

/-- A round either changes nothing or marks something. -/
theorem round_cases {marked : Array Bool} {r : Round} (done : round o d marked = some r) :
    r = ⟨marked, false⟩ ∨ r.changed = true ∧ r.marked.count false < marked.count false := by
  refine foldlM_keeps
    (fun r => r = ⟨marked, false⟩ ∨ r.changed = true ∧ r.marked.count false < marked.count false)
    (fun r pair _ s looked before => ?_) (.inl rfl) done
  rcases look_cases looked with rfl | ⟨changed, less⟩
  · exact before
  · rcases before with rfl | ⟨_, lessBefore⟩
    · exact .inr ⟨changed, less⟩
    · exact .inr ⟨changed, Nat.lt_trans less lessBefore⟩

/-- Looks at all pairs again and again, until nothing changes. -/
def fill (o : Overflow) (d : Dfa) (marked : Array Bool) : Option (Array Bool) :=
  match _ : round o d marked with
  | none => none
  | some ⟨after, false⟩ => some after
  | some ⟨after, true⟩ => fill o d after
termination_by marked.count false
decreasing_by
  have done : round o d marked = some ⟨after, true⟩ := ‹_›
  rcases round_cases done with same | ⟨_, less⟩
  · cases same
  · exact less

/-- Classes in the order in which they are found, with the number of the class of each state that is in
one. -/
structure Grouping where
  classOf : Array (Option Nat)
  classes : List StateSet

/-- Puts a state into the class of `p`, unless it is in a class or the pair is marked. -/
def join (o : Overflow) (width : Nat) (marked : Array Bool) (number p : Nat)
    (s : Array (Option Nat) × StateSet) (q : State) : Option (Array (Option Nat) × StateSet) := do
  let known ← s.1[q]?
  if known.isSome then return s
  else
    let apart ← isMarked o width marked p q
    if apart then return s
    else
      let classOf ← write? s.1 q (some number)
      return (classOf, s.2.insert q)

/-- Makes the class of a state, unless it is in one. -/
def group (o : Overflow) (width : Nat) (marked : Array Bool) (g : Grouping) (p : State) :
    Option Grouping := do
  let known ← g.classOf[p]?
  if known.isSome then return g
  else
    let (classOf, states) ← (List.range' p (width - p)).foldlM
      (join o width marked g.classes.length p) (g.classOf, ∅)
    return ⟨classOf, g.classes ++ [states]⟩

/-- Writes the cells of a row, copied from the row of a state with each target replaced by the number of
its class. -/
def copyRow (d : Dfa) (classOf : Array Nat) (line : Nat) (q : State) (table : Array (Option State)) :
    Option (Array (Option State)) :=
  (List.range d.alphabet.size).foldlM (fun table i => do
    let cell ← d.table[q * d.alphabet.size + i]?
    let target ← cell.mapM fun t => classOf[t]?
    write? table (line * d.alphabet.size + i) target) table

/-- Makes the state with the number of a class behave as the least state of the class. -/
def enterBehaviour (d : Dfa) (classOf : Array Nat) (m : Dfa) (states : StateSet) (number : Nat) :
    Option Dfa :=
  match states.toList.head? with
  | none => some m
  | some q => do
    let table ← copyRow d classOf number q m.table
    let value ← d.accepting[q]?
    let accepting ← write? m.accepting number value
    return { m with table, accepting }

def enter (d : Dfa) (classOf : Array Nat) (m : Dfa) (entry : StateSet × Nat) : Option Dfa := do
  let m ← enterBehaviour d classOf m entry.1 entry.2
  let origins ← write? m.origins entry.2 entry.1
  return { m with origins }

/-- An automaton without transitions, with one state more than `count`. -/
def blank (symbols : List Char) (count : Nat) : Dfa :=
  (List.range count).foldl (fun m _ => m.addState) (.new symbols)

def minimize (o : Overflow) (d : Dfa) : Option Dfa := do
  let width := d.numStates
  let start ← acceptanceMarks o d
  let marked ← fill o d start
  let g ← (List.range width).foldlM (group o width marked) ⟨Array.replicate width none, []⟩
  let classOf := g.classOf.toList.reduceOption.toArray
  let first ← classOf[d.start]?
  let m := blank d.alphabet.toList (g.classes.length - 1)
  g.classes.zipIdx.foldlM (enter d classOf) { m with start := first }

end Guarded

end Lexing.Dfa
