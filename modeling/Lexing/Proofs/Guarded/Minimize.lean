import Lexing.Proofs.Dfa.WellFormed
import Lexing.Proofs.Guarded.Marking
import Mathlib.Data.List.ReduceOption

set_option autoImplicit false

namespace Lexing.Dfa.Guarded

variable {o : Overflow} {d : Dfa} {marked : Array Bool}

/-- The states below a bound that lead a class, in ascending order. -/
def headsBelow (d : Dfa) (bound : Nat) : List Nat := (List.range bound).filter d.classes.isLeader

theorem headsBelow_numStates (d : Dfa) : headsBelow d d.numStates = d.classes.heads := by
  rw [headsBelow, Partition.heads, size_classes]

theorem headsBelow_succ (d : Dfa) (p : Nat) : headsBelow d (p + 1) =
    headsBelow d p ++ if d.classes.leader p = p then [p] else [] := by
  unfold headsBelow
  rw [List.range_succ, List.filter_append]
  by_cases leads : d.classes.leader p = p <;> simp [Partition.isLeader, leads]

/-- The number of a class is the number of leaders before its own. -/
theorem classOf_of_leader {p : State} (inside : p < d.numStates) (leads : d.classes.leader p = p) :
    d.classOf p = (headsBelow d p).length := by
  refine classOf_eq_of_head ?_ leads
  have later : ∀ count, (headsBelow d (p + 1 + count))[(headsBelow d p).length]? = some p := by
    intro count
    induction count with
    | zero => simp [headsBelow_succ, leads]
    | succ count ih =>
      rw [← Nat.add_assoc, headsBelow_succ]
      exact (List.getElem?_append_left (List.getElem?_eq_some_iff.1 ih).1).trans ih
  rw [← headsBelow_numStates, ← later (d.numStates - (p + 1)), Nat.add_sub_cancel' inside]

/-- What holds while the class of the leader `p` is gathered and the states below `i` have been looked
at. -/
structure Joining (d : Dfa) (p i : Nat) (s : Array (Option Nat) × StateSet) : Prop where
  size_eq : s.1.size = d.numStates
  entry : ∀ q < d.numStates, s.1[q]? = some
    (if d.classes.leader q < p ∨ d.classes.leader q = p ∧ q < i then some (d.classOf q) else none)
  member : ∀ q : Nat, q ∈ s.2 ↔ q < i ∧ d.classes.leader q = p

/-- A state of another class changes nothing. -/
theorem Joining.skip {p i : Nat} {s : Array (Option Nat) × StateSet} (joining : Joining d p i s)
    (other : d.classes.leader i ≠ p) : Joining d p (i + 1) s where
  size_eq := joining.size_eq
  entry q inside := by
    have same : d.classes.leader q = p ∧ q < i + 1 ↔ d.classes.leader q = p ∧ q < i := by
      refine and_congr_right fun leader => ?_
      have apart : q ≠ i := fun equal => other (equal ▸ leader)
      omega
    simp only [joining.entry q inside, same]
  member q := by
    have same : q < i + 1 ∧ d.classes.leader q = p ↔ q < i ∧ d.classes.leader q = p := by
      refine and_congr_left fun leader => ?_
      have apart : q ≠ i := fun equal => other (equal ▸ leader)
      omega
    rw [joining.member q, same]

/-- A state of the class is entered. -/
theorem Joining.take {p i : Nat} {classOf : Array (Option Nat)} {states : StateSet}
    (joining : Joining d p i (classOf, states)) (own : d.classes.leader i = p)
    (inside : i < d.numStates) :
    Joining d p (i + 1) (classOf.setIfInBounds i (some (d.classOf i)), states.insert i) where
  size_eq := by
    rw [Array.size_setIfInBounds]
    exact joining.size_eq
  entry q bound := by
    rw [Array.getElem?_setIfInBounds]
    by_cases same : i = q
    · subst same
      have room : i < classOf.size := joining.size_eq ▸ inside
      simp [own, room]
    · have equal : q < i + 1 ↔ q < i := by omega
      simp only [if_neg same, joining.entry q bound, equal]
  member q := by
    rw [SortedSet.mem_insert, joining.member q]
    constructor
    · rintro (rfl | ⟨below, leader⟩)
      · exact ⟨Nat.lt_succ_self q, own⟩
      · exact ⟨Nat.lt_succ_of_lt below, leader⟩
    · rintro ⟨below, leader⟩
      rcases Nat.lt_succ_iff_lt_or_eq.1 below with earlier | rfl
      · exact .inr ⟨earlier, leader⟩
      · exact .inl rfl

theorem Joining.join (separates : Separates o d marked) {p i : Nat}
    {s : Array (Option Nat) × StateSet} (left : p < d.numStates)
    (leads : d.classes.leader p = p) (right : i < d.numStates) (joining : Joining d p i s) :
    ∃ t, join o d.numStates marked (d.classOf p) p s i = some t ∧ Joining d p (i + 1) t := by
  obtain ⟨classOf, states⟩ := s
  unfold Guarded.join
  simp only [joining.entry i right, separates p left i right, leads, Option.bind_eq_bind,
    Option.bind_some]
  by_cases before : d.classes.leader i < p
  · refine ⟨_, ?_, joining.skip (Nat.ne_of_lt before)⟩
    simp [before]
  · by_cases own : d.classes.leader i = p
    · have room : i < classOf.size := joining.size_eq ▸ right
      have number : d.classOf p = d.classOf i := by
        rw [Dfa.classOf, Dfa.classOf, leads, own]
      refine ⟨_, ?_, joining.take own right⟩
      simp [own, number, write?_of_lt room]
    · refine ⟨_, ?_, joining.skip own⟩
      simp [before, own, Ne.symm own]

/-- What holds when the states below `p` are in their classes. -/
structure Gathered (d : Dfa) (p : Nat) (g : Grouping) : Prop where
  size_eq : g.classOf.size = d.numStates
  entry : ∀ q < d.numStates,
    g.classOf[q]? = some (if d.classes.leader q < p then some (d.classOf q) else none)
  classes_eq : g.classes =
    (headsBelow d p).map fun head => SortedSet.ofList (d.classes.members head)

/-- A state that does not lead its class has been gathered with its leader. -/
theorem Gathered.pass {p : Nat} {g : Grouping} (gathered : Gathered d p g)
    (before : d.classes.leader p < p) : Gathered d (p + 1) g where
  size_eq := gathered.size_eq
  entry q bound := by
    have other : d.classes.leader q ≠ p := by
      intro leader
      have proper := d.proper_classes q (d.size_classes.symm ▸ bound)
      rw [leader] at proper
      exact Nat.ne_of_lt before proper
    have same : d.classes.leader q < p + 1 ↔ d.classes.leader q < p := by omega
    simp only [gathered.entry q bound, same]
  classes_eq := by
    rw [gathered.classes_eq, headsBelow_succ, if_neg (Nat.ne_of_lt before), List.append_nil]

/-- No state before the leader belongs to its class. -/
theorem Gathered.joining {p : Nat} {g : Grouping} (gathered : Gathered d p g) :
    Joining d p p (g.classOf, ∅) where
  size_eq := gathered.size_eq
  entry q bound := by
    have none : ¬ (d.classes.leader q = p ∧ q < p) := by
      rintro ⟨leader, below⟩
      exact Nat.not_le.2 below (leader ▸ d.classes.leader_le q)
    rw [gathered.entry q bound]
    simp only [none, or_false]
  member q := by
    constructor
    · exact fun impossible => absurd impossible (SortedSet.not_mem_empty q)
    · rintro ⟨below, leader⟩
      exact absurd below (Nat.not_lt.2 (leader ▸ d.classes.leader_le q))

/-- The class of a leader is complete. -/
theorem Gathered.append {p : Nat} {g : Grouping} {classOf : Array (Option Nat)} {states : StateSet}
    (gathered : Gathered d p g) (leads : d.classes.leader p = p)
    (joined : Joining d p d.numStates (classOf, states)) :
    Gathered d (p + 1) ⟨classOf, g.classes ++ [states]⟩ where
  size_eq := joined.size_eq
  entry q bound := by
    have same : d.classes.leader q < p + 1 ↔
        d.classes.leader q < p ∨ d.classes.leader q = p ∧ q < d.numStates := by omega
    simp only [joined.entry q bound, same]
  classes_eq := by
    have members : states = SortedSet.ofList (d.classes.members p) := by
      refine SortedSet.ext fun q => ?_
      rw [joined.member q, SortedSet.mem_ofList, Partition.mem_members, size_classes]
    rw [gathered.classes_eq, headsBelow_succ, if_pos leads, List.map_append, members]
    rfl

theorem Gathered.group (separates : Separates o d marked) {p : Nat} {g : Grouping}
    (inside : p < d.numStates) (gathered : Gathered d p g) :
    ∃ h, group o d.numStates marked g p = some h ∧ Gathered d (p + 1) h := by
  unfold Guarded.group
  simp only [gathered.entry p inside, Option.bind_eq_bind, Option.bind_some]
  rcases Nat.lt_or_eq_of_le (d.classes.leader_le p) with before | leads
  · exact ⟨g, by simp [before], gathered.pass before⟩
  · have number : g.classes.length = d.classOf p := by
      rw [gathered.classes_eq, List.length_map, classOf_of_leader inside leads]
    have loop : ∃ t, (List.range' p (d.numStates - p)).foldlM
        (join o d.numStates marked (d.classOf p) p) (g.classOf, ∅) = some t ∧
          Joining d p (p + (d.numStates - p)) t :=
      foldlM_range'_spec (Joining d p) gathered.joining fun i s _ upper joining =>
        joining.join separates inside leads (by omega)
    rw [Nat.add_sub_cancel' (Nat.le_of_lt inside)] at loop
    obtain ⟨⟨classOf, states⟩, looped, joined⟩ := loop
    rw [number, looped]
    exact ⟨⟨classOf, g.classes ++ [states]⟩, by simp [leads], gathered.append leads joined⟩

theorem group_spec (separates : Separates o d marked) :
    ∃ g, (List.range d.numStates).foldlM (group o d.numStates marked)
        ⟨Array.replicate d.numStates none, []⟩ = some g ∧
      g.classes = d.classes.heads.map (fun head => SortedSet.ofList (d.classes.members head)) ∧
      g.classOf.toList.reduceOption = (List.range d.numStates).map d.classOf := by
  have start : Gathered d 0 ⟨Array.replicate d.numStates none, []⟩ :=
    ⟨Array.size_replicate, fun q inside => by simp [inside], rfl⟩
  obtain ⟨g, looped, gathered⟩ := foldlM_range_spec (Gathered d) start
    fun p inside g before => before.group separates inside
  refine ⟨g, looped, ?_, ?_⟩
  · rw [gathered.classes_eq, headsBelow_numStates]
  · have numbers : g.classOf.toList = (List.range d.numStates).map fun q => some (d.classOf q) := by
      refine List.ext_getElem? fun q => ?_
      rw [Array.getElem?_toList]
      by_cases inside : q < d.numStates
      · rw [gathered.entry q inside, if_pos (Nat.lt_of_le_of_lt (d.classes.leader_le q) inside)]
        simp [inside]
      · rw [Array.getElem?_eq_none (gathered.size_eq ▸ Nat.le_of_not_lt inside)]
        simp [inside]
    rw [numbers]
    simp [List.reduceOption]

/-- The numbers of the classes stand at the indices of the states. -/
theorem getElem?_numbers {q : State} (inside : q < d.numStates) :
    ((List.range d.numStates).map d.classOf).toArray[q]? = some (d.classOf q) := by
  simp [inside]

/-- The least state of a class is its leader. -/
theorem head?_members {head : State} (inside : head < d.numStates)
    (leads : d.classes.leader head = head) :
    (SortedSet.ofList (d.classes.members head)).toList.head? = some head := by
  have member : ∀ q, q ∈ (SortedSet.ofList (d.classes.members head)).toList ↔
      q < d.numStates ∧ d.classes.leader q = head := by
    intro q
    rw [← SortedSet.mem_def, SortedSet.mem_ofList, Partition.mem_members, size_classes]
  have ascending := (SortedSet.ofList (d.classes.members head)).ascending
  cases listed : (SortedSet.ofList (d.classes.members head)).toList with
  | nil =>
    have mem := (member head).2 ⟨inside, leads⟩
    rw [listed] at mem
    exact absurd mem List.not_mem_nil
  | cons first rest =>
    rw [listed] at member ascending
    have lower : head ≤ first := by
      have leader := ((member first).1 List.mem_cons_self).2
      exact leader ▸ d.classes.leader_le first
    rcases List.mem_cons.1 ((member head).2 ⟨inside, leads⟩) with same | later
    · rw [same]
      rfl
    · have below := Nat.compare_eq_lt.1 ((List.pairwise_cons.1 ascending).1 head later)
      exact absurd below (Nat.not_lt.2 lower)

theorem size_table_minimize (d : Dfa) :
    d.minimize.table.size = d.minimize.numStates * d.alphabet.size := by
  rw [size_of_rows (table_minimize d), numStates_minimize, alphabet_minimize]

theorem line_lt {line head : Nat} (at_line : d.classes.heads[line]? = some head) :
    line < d.minimize.numStates := by
  rw [numStates_minimize]
  exact (List.getElem?_eq_some_iff.1 at_line).1

/-- A line has its first `i` cells from the minimized automaton; all others are as before. -/
structure Copying (d : Dfa) (line : Nat) (before : Array (Option State)) (i : Nat)
    (after : Array (Option State)) : Prop where
  size_eq : after.size = d.minimize.table.size
  own : ∀ column < i, after[line * d.alphabet.size + column]? =
    d.minimize.table[line * d.alphabet.size + column]?
  other : ∀ l column, column < d.alphabet.size → l ≠ line ∨ i ≤ column →
    after[l * d.alphabet.size + column]? = before[l * d.alphabet.size + column]?

theorem Copying.write {line i : Nat} {c : Char} {before after : Array (Option State)}
    (wf : d.WellFormed) (inside : line < d.minimize.numStates)
    (letter : d.alphabet.toList[i]? = some c) (copying : Copying d line before i after) :
    Copying d line before (i + 1)
      (after.setIfInBounds (line * d.alphabet.size + i) (d.minimize.next? line c)) := by
  have column : i < d.alphabet.size := (List.getElem?_eq_some_iff.1 letter).1
  have bound : line * d.alphabet.size + i < after.size :=
    copying.size_eq ▸ (wellFormed_minimize wf).index_lt inside column
  refine ⟨by rw [Array.size_setIfInBounds, copying.size_eq], fun j below => ?_,
    fun l j known apart => ?_⟩
  · have known : j < d.alphabet.size := by omega
    rw [Array.getElem?_setIfInBounds]
    by_cases same : i = j
    · subst same
      rw [if_pos rfl, if_pos bound]
      exact ((wellFormed_minimize wf).getElem?_table inside letter).symm
    · rw [if_neg fun equal => same ((index_eq_iff column known).1 equal).2]
      exact copying.own j (by omega)
  · have different : ¬ (line = l ∧ i = j) := by omega
    rw [Array.getElem?_setIfInBounds, if_neg fun equal => different ((index_eq_iff column known).1 equal)]
    exact copying.other l j known (apart.imp_right (by omega))

/-- One line of the new table is written. -/
theorem copyRow_spec (wf : d.WellFormed) {line head : Nat} {table : Array (Option State)}
    (size : table.size = d.minimize.table.size) (at_line : d.classes.heads[line]? = some head) :
    ∃ after, copyRow d ((List.range d.numStates).map d.classOf).toArray line head table = some after ∧
      Copying d line table d.alphabet.size after := by
  have inside := line_lt at_line
  refine foldlM_range_spec (Copying d line table) ⟨size, by simp, fun _ _ _ _ => rfl⟩ ?_
  intro i column after copying
  have letter := List.getElem?_eq_getElem (l := d.alphabet.toList) column
  have target : (d.next? head d.alphabet.toList[i]).mapM
      (fun t => ((List.range d.numStates).map d.classOf).toArray[t]?) =
        some (d.minimize.next? line d.alphabet.toList[i]) := by
    rw [next?_minimize at_line]
    cases next : d.next? head d.alphabet.toList[i] with
    | none => rfl
    | some t =>
      show some <$> ((List.range d.numStates).map d.classOf).toArray[t]? = _
      rw [getElem?_numbers (wf.next?_lt next)]
      rfl
  have bound : line * d.alphabet.size + i < after.size :=
    copying.size_eq ▸ (wellFormed_minimize wf).index_lt inside column
  refine ⟨_, ?_, copying.write wf inside letter⟩
  simp only [wf.getElem?_table (head_lt at_line) letter, Option.bind_eq_bind, Option.bind_some]
  rw [target]
  exact write?_of_lt bound _

/-- The states below `i` are those of the minimized automaton. -/
structure Entered (d : Dfa) (i : Nat) (m : Dfa) : Prop where
  alphabet_eq : m.alphabet = d.minimize.alphabet
  start_eq : m.start = d.minimize.start
  table_size : m.table.size = d.minimize.table.size
  accepting_size : m.accepting.size = d.minimize.accepting.size
  origins_size : m.origins.size = d.minimize.origins.size
  cell_eq : ∀ line < i, ∀ column < d.alphabet.size, m.table[line * d.alphabet.size + column]? =
    d.minimize.table[line * d.alphabet.size + column]?
  accepting_eq : ∀ line < i, m.accepting[line]? = d.minimize.accepting[line]?
  origins_eq : ∀ line < i, m.origins[line]? = d.minimize.origins[line]?

theorem Entered.lt_size (wf : d.WellFormed) {i head : Nat} {m : Dfa} (entered : Entered d i m)
    (at_i : d.classes.heads[i]? = some head) : i < m.accepting.size ∧ i < m.origins.size := by
  rw [entered.accepting_size, entered.origins_size, (wellFormed_minimize wf).origins_size]
  exact ⟨line_lt at_i, line_lt at_i⟩

/-- If arrays agree before an index and the entry there is written, they agree up to it. -/
theorem getElem?_write {α : Type} {xs ys : Array α} {i : Nat} {a : α} (inside : i < xs.size)
    (value : ys[i]? = some a) (same : ∀ j < i, xs[j]? = ys[j]?) :
    ∀ j < i + 1, (xs.setIfInBounds i a)[j]? = ys[j]? := by
  intro j below
  rw [Array.getElem?_setIfInBounds]
  rcases Nat.lt_succ_iff_lt_or_eq.1 below with earlier | rfl
  · rw [if_neg (Nat.ne_of_gt earlier), same j earlier]
  · rw [if_pos rfl, if_pos inside, value]

/-- One more state has been given the behaviour and the members of its class. -/
theorem Entered.write (wf : d.WellFormed) {i head : Nat} {m : Dfa} {table : Array (Option State)}
    (entered : Entered d i m) (at_i : d.classes.heads[i]? = some head)
    (copying : Copying d i m.table d.alphabet.size table) :
    Entered d (i + 1) { m with
      table
      accepting := m.accepting.setIfInBounds i (d.isAccepting head)
      origins := m.origins.setIfInBounds i (SortedSet.ofList (d.classes.members head)) } := by
  obtain ⟨inAccepting, inOrigins⟩ := entered.lt_size wf at_i
  have value : d.minimize.accepting[i]? = some (d.isAccepting head) := by
    rw [getElem?_accepting (line_lt at_i), isAccepting_minimize at_i]
  have origin : d.minimize.origins[i]? = some (SortedSet.ofList (d.classes.members head)) := by
    have states := d.origin?_minimize i
    rwa [at_i, Option.map_some] at states
  refine ⟨entered.alphabet_eq, entered.start_eq, copying.size_eq, ?_, ?_, ?_, ?_, ?_⟩
  · rw [Array.size_setIfInBounds, entered.accepting_size]
  · rw [Array.size_setIfInBounds, entered.origins_size]
  · intro line below column known
    rcases Nat.lt_succ_iff_lt_or_eq.1 below with earlier | rfl
    · rw [copying.other line column known (.inl (Nat.ne_of_lt earlier))]
      exact entered.cell_eq line earlier column known
    · exact copying.own column known
  · exact getElem?_write inAccepting value entered.accepting_eq
  · exact getElem?_write inOrigins origin entered.origins_eq

theorem Entered.enter (wf : d.WellFormed) {i head : Nat} {m : Dfa} (entered : Entered d i m)
    (at_i : d.classes.heads[i]? = some head) :
    ∃ after, enter d ((List.range d.numStates).map d.classOf).toArray m
        (SortedSet.ofList (d.classes.members head), i) = some after ∧ Entered d (i + 1) after := by
  obtain ⟨inAccepting, inOrigins⟩ := entered.lt_size wf at_i
  obtain ⟨table, copied, copying⟩ := copyRow_spec wf entered.table_size at_i
  refine ⟨_, ?_, entered.write wf at_i copying⟩
  unfold Guarded.enter enterBehaviour
  simp only [head?_members (head_lt at_i) (leader_head at_i), copied,
    getElem?_accepting (head_lt at_i), write?_of_lt inAccepting, write?_of_lt inOrigins,
    Option.bind_eq_bind, Option.bind_some, Option.pure_def]

theorem getElem?_ext_of_lt {α : Type} {xs ys : Array α} (size : xs.size = ys.size)
    (same : ∀ i < ys.size, xs[i]? = ys[i]?) : xs = ys := by
  refine Array.ext_getElem? fun i => ?_
  by_cases inside : i < ys.size
  · exact same i inside
  · rw [Array.getElem?_eq_none (size ▸ Nat.le_of_not_lt inside),
      Array.getElem?_eq_none (Nat.le_of_not_lt inside)]

/-- When all states are entered, the automaton is the minimized one. -/
theorem Entered.eq_minimize (wf : d.WellFormed) {m : Dfa}
    (entered : Entered d d.minimize.numStates m) : m = d.minimize := by
  have cells : m.table = d.minimize.table := by
    refine getElem?_ext_of_lt entered.table_size fun i inside => ?_
    obtain ⟨c, letter, _⟩ := (wellFormed_minimize wf).cell_eq_next? inside
    have column : i % d.alphabet.size < d.alphabet.size := (List.getElem?_eq_some_iff.1 letter).1
    have line : i / d.alphabet.size < d.minimize.numStates := by
      apply Nat.div_lt_of_lt_mul
      rw [Nat.mul_comm, ← size_table_minimize]
      exact inside
    have same := entered.cell_eq _ line _ column
    rwa [Nat.div_add_mod'] at same
  have values : m.accepting = d.minimize.accepting :=
    getElem?_ext_of_lt entered.accepting_size entered.accepting_eq
  have states : m.origins = d.minimize.origins := by
    refine getElem?_ext_of_lt entered.origins_size fun i inside => entered.origins_eq i ?_
    rw [(wellFormed_minimize wf).origins_size] at inside
    exact inside
  obtain ⟨alphabet, start, table, accepting, origins⟩ := m
  obtain ⟨rfl, rfl⟩ := And.intro entered.alphabet_eq entered.start_eq
  obtain ⟨rfl, rfl, rfl⟩ := And.intro cells (And.intro values states)
  rfl

theorem blank_spec (symbols : List Char) (count : Nat) : (blank symbols count).Built ∧
    (blank symbols count).alphabet = .ofList symbols ∧
    (blank symbols count).numStates = count + 1 := by
  unfold blank
  induction count with
  | zero => exact ⟨.new symbols, rfl, rfl⟩
  | succ count ih =>
    obtain ⟨built, alphabet, states⟩ := ih
    rw [List.range_succ, List.foldl_append]
    refine ⟨built.edit .addState, alphabet, ?_⟩
    simp only [List.foldl_cons, List.foldl_nil, numStates, addState, Array.size_push]
    exact congrArg (· + 1) states

/-- Before any state is entered. -/
theorem entered_blank (wf : d.WellFormed) : Entered d 0
    { blank d.alphabet.toList (d.classes.heads.length - 1) with start := d.classOf d.start } := by
  obtain ⟨built, symbols, states⟩ := blank_spec d.alphabet.toList (d.classes.heads.length - 1)
  have alphabet : (blank d.alphabet.toList (d.classes.heads.length - 1)).alphabet = d.alphabet :=
    symbols.trans (SortedSet.ext fun c => by rw [SortedSet.mem_ofList, SortedSet.mem_def])
  have wfMin := wellFormed_minimize wf
  have count : (blank d.alphabet.toList (d.classes.heads.length - 1)).accepting.size =
      d.minimize.accepting.size := by
    have pos : 0 < d.minimize.numStates := wfMin.nonempty
    rw [numStates_minimize] at pos
    calc (blank d.alphabet.toList (d.classes.heads.length - 1)).accepting.size
      _ = d.classes.heads.length - 1 + 1 := states
      _ = d.classes.heads.length := Nat.sub_add_cancel pos
      _ = d.minimize.accepting.size := d.numStates_minimize.symm
  refine ⟨alphabet, rfl, ?_, count, ?_, ?_, ?_, ?_⟩
  · show (blank _ _).table.size = _
    rw [built.wellFormed.table_size, wfMin.table_size, count, alphabet, alphabet_minimize]
  · show (blank _ _).origins.size = _
    rw [built.wellFormed.origins_size, wfMin.origins_size, count]
  · exact fun line below => absurd below (Nat.not_lt_zero line)
  · exact fun line below => absurd below (Nat.not_lt_zero line)
  · exact fun line below => absurd below (Nat.not_lt_zero line)

theorem enterAll_spec (wf : d.WellFormed) {m : Dfa} (blank : Entered d 0 m) :
    (d.classes.heads.map fun head => SortedSet.ofList (d.classes.members head)).zipIdx.foldlM
      (enter d ((List.range d.numStates).map d.classOf).toArray) m = some d.minimize := by
  have loop : ∃ after,
      (d.classes.heads.map fun head => SortedSet.ofList (d.classes.members head)).zipIdx.foldlM
        (enter d ((List.range d.numStates).map d.classOf).toArray) m = some after ∧
          Entered d (d.classes.heads.map fun head =>
            SortedSet.ofList (d.classes.members head)).zipIdx.length after := by
    refine foldlM_spec (fun done m => Entered d done.length m) blank ?_
    intro done entry rest m whole entered
    have here : (d.classes.heads.map fun head =>
        SortedSet.ofList (d.classes.members head)).zipIdx[done.length]? = some entry := by
      rw [whole, List.getElem?_append_right (Nat.le_refl _), Nat.sub_self]
      rfl
    rw [List.getElem?_zipIdx, List.getElem?_map, Option.map_map, Option.map_eq_some_iff] at here
    obtain ⟨head, at_i, rfl⟩ := here
    rw [List.length_append, List.length_singleton]
    simpa using entered.enter wf at_i
  obtain ⟨after, looped, entered⟩ := loop
  rw [List.length_zipIdx, List.length_map, ← numStates_minimize] at entered
  rw [looped, entered.eq_minimize wf]

/-- Minimization with guards makes the minimized automaton. -/
theorem minimize_eq (wf : d.WellFormed) (fits : d.MarksFit) : minimize o d = some d.minimize := by
  obtain ⟨marked, filled, separates⟩ := marks_spec (o := o) wf fits
  obtain ⟨start, begun, filled⟩ := Option.bind_eq_some_iff.1 filled
  obtain ⟨g, grouped, classes, numbers⟩ := group_spec separates
  unfold minimize
  simp only [begun, filled, grouped, numbers, classes, getElem?_numbers wf.start_lt, List.length_map,
    Option.bind_eq_bind, Option.bind_some]
  exact enterAll_spec wf (entered_blank wf)

end Lexing.Dfa.Guarded
