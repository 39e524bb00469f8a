import Lexing.Dfa.Built
import Lexing.Proofs.Dfa.Run
import Lexing.Proofs.Partition.Coarsest

set_option autoImplicit false

namespace Lexing.Dfa

variable {d : Dfa}

/-- States from which every word has the same outcome. -/
def Alike (d : Dfa) (p q : State) : Prop := ∀ w, d.outcome p w = d.outcome q w

/-- Words with other characters than those of the alphabet tell no states apart. -/
theorem alike_iff_known {p q : State} : d.Alike p q ↔
    ∀ w, (∀ c ∈ w, c ∈ d.alphabet) → d.outcome p w = d.outcome q w := by
  constructor
  · intro alike w _
    exact alike w
  · intro same w
    by_cases known : ∀ c ∈ w, c ∈ d.alphabet
    · exact same w known
    · rw [outcome_unknown known, outcome_unknown known]

theorem Alike.isAccepting_eq {p q : State} (alike : d.Alike p q) :
    d.isAccepting p = d.isAccepting q := by
  have empty := alike []
  rw [outcome_nil, outcome_nil] at empty
  exact Option.some.inj empty

/-- A character leads from like states to like states or from both to a gap. -/
theorem Alike.next? {p q : State} (alike : d.Alike p q) (c : Char) :
    d.next? p c = none ∧ d.next? q c = none ∨
      ∃ x y, d.next? p c = some x ∧ d.next? q c = some y ∧ d.Alike x y := by
  have after : ∀ w, ((d.next? p c).bind fun x => d.outcome x w) =
      (d.next? q c).bind fun y => d.outcome y w := by
    intro w
    rw [← outcome_cons, ← outcome_cons]
    exact alike (c :: w)
  cases first : d.next? p c with
  | none =>
    cases second : d.next? q c with
    | none => exact .inl ⟨rfl, rfl⟩
    | some y =>
      have gap := after []
      rw [first, second] at gap
      cases gap
  | some x =>
    cases second : d.next? q c with
    | none =>
      have gap := after []
      rw [first, second] at gap
      cases gap
    | some y =>
      refine .inr ⟨x, y, rfl, rfl, fun w => ?_⟩
      have same := after w
      rwa [first, second] at same

/-- The row of a state with each successor replaced by the leader of its class. -/
def signature (d : Dfa) (p : Partition) (q : State) : List (Option State) :=
  d.alphabet.toList.map fun c => (d.next? q c).map p.leader

def signatures (d : Dfa) (p : Partition) : Array (List (Option State)) :=
  ((Array.range d.numStates).map d.row).map fun row => row.map (Option.map p.leader)

theorem getElem?_signatures {p : Partition} {q : State} (inside : q < d.numStates) :
    (d.signatures p)[q]? = some (d.signature p q) := by
  simp [signatures, signature, inside, row_eq_map_next?]

theorem signature_eq_iff {p : Partition} {a b : State} : d.signature p a = d.signature p b ↔
    ∀ c ∈ d.alphabet, (d.next? a c).map p.leader = (d.next? b c).map p.leader :=
  List.map_inj_left

def coarse (d : Dfa) : Partition := (Partition.whole d.numStates).split d.accepting

theorem classes_eq (d : Dfa) : d.classes = d.coarse.stabilize d.signatures := rfl

theorem size_coarse (d : Dfa) : d.coarse.size = d.numStates := by
  rw [coarse, Partition.size_split, Partition.size_whole]

theorem same_coarse {p q : State} (left : p < d.numStates) (right : q < d.numStates) :
    d.coarse.Same p q ↔ d.isAccepting p = d.isAccepting q := by
  have sizes : (Partition.whole d.numStates).size = d.numStates := Partition.size_whole _
  have bounds : p < d.accepting.size ∧ q < d.accepting.size := ⟨left, right⟩
  rw [coarse, Partition.same_split (sizes.symm ▸ left) (sizes.symm ▸ right)]
  simp only [Partition.same_whole left right, true_and, isAccepting, Array.getD_eq_getD_getElem?,
    Array.getElem?_eq_getElem bounds.1, Array.getElem?_eq_getElem bounds.2, Option.some.injEq,
    Option.getD_some]

theorem same_classes_of_alike {p q : State} (wf : d.WellFormed) (left : p < d.numStates)
    (right : q < d.numStates) (alike : d.Alike p q) : d.classes.Same p q := by
  rw [classes_eq]
  rw [← d.size_coarse] at left right
  refine Partition.same_stabilize (fun a inA b inB like => ?_)
    (fun r _ respected a inA b inB like => ?_) left right alike
  · rw [size_coarse] at inA inB
    exact (same_coarse inA inB).2 like.isAccepting_eq
  · rw [size_coarse] at inA inB
    rw [getElem?_signatures inA, getElem?_signatures inB, Option.some_inj, signature_eq_iff]
    intro c _
    rcases like.next? c with ⟨first, second⟩ | ⟨x, y, first, second, after⟩
    · rw [first, second]
    · have inX := wf.next?_lt first
      have inY := wf.next?_lt second
      rw [← d.size_coarse] at inX inY
      rw [first, second, Option.map_some, Option.map_some, respected x inX y inY after]

theorem alike_of_same_classes {p q : State} (wf : d.WellFormed) (left : p < d.numStates)
    (right : q < d.numStates) (same : d.classes.Same p q) : d.Alike p q := by
  intro w
  induction w generalizing p q with
  | nil =>
    rw [classes_eq] at same
    have first : d.coarse.Same p q := Partition.same_of_same_stabilize
      (d.size_coarse.symm ▸ left) (d.size_coarse.symm ▸ right) same
    rw [outcome_nil, outcome_nil, (same_coarse left right).1 first]
  | cons c w ih =>
    have signatures : d.signature d.classes p = d.signature d.classes q := by
      have keys : (d.signatures d.classes)[p]? = (d.signatures d.classes)[q]? :=
        Partition.key_eq_of_same_stabilize (d.size_coarse.symm ▸ left)
          (d.size_coarse.symm ▸ right) same
      rw [getElem?_signatures left, getElem?_signatures right] at keys
      exact Option.some.inj keys
    rw [outcome_cons, outcome_cons]
    by_cases letter : c ∈ d.alphabet
    · have leaders := signature_eq_iff.1 signatures c letter
      cases first : d.next? p c with
      | none =>
        rw [first, Option.map_none] at leaders
        rw [Option.map_eq_none_iff.1 leaders.symm]
      | some x =>
        rw [first, Option.map_some] at leaders
        obtain ⟨y, second, same⟩ := Option.map_eq_some_iff.1 leaders.symm
        rw [second]
        exact ih (wf.next?_lt first) (wf.next?_lt second) same.symm
    · rw [next?_eq_none_of_not_mem letter, next?_eq_none_of_not_mem letter]

/-- Two states are in one class if and only if no word tells them apart. -/
theorem same_classes_iff {p q : State} (wf : d.WellFormed) (left : p < d.numStates)
    (right : q < d.numStates) : d.classes.Same p q ↔ d.Alike p q :=
  ⟨alike_of_same_classes wf left right, same_classes_of_alike wf left right⟩

theorem proper_classes (d : Dfa) : d.classes.Proper :=
  Partition.proper_stabilize (Partition.proper_split _ _) _

theorem leader_mem_heads {q : State} (inside : q < d.numStates) :
    d.classes.leader q ∈ d.classes.heads := by
  rw [Partition.mem_heads, size_classes]
  refine ⟨Nat.lt_of_le_of_lt (d.classes.leader_le q) inside, d.proper_classes q ?_⟩
  rw [size_classes]
  exact inside

theorem ascending_heads (d : Dfa) : d.classes.heads.Pairwise (· < ·) :=
  List.pairwise_lt_range.filter _

theorem nodup_heads (d : Dfa) : d.classes.heads.Nodup := d.ascending_heads.imp Nat.ne_of_lt

theorem head_lt {i : Nat} {head : State} (at_i : d.classes.heads[i]? = some head) :
    head < d.numStates := by
  have mem := Partition.mem_heads.1 (List.mem_of_getElem? at_i)
  exact d.size_classes ▸ mem.1

theorem leader_head {i : Nat} {head : State} (at_i : d.classes.heads[i]? = some head) :
    d.classes.leader head = head := (Partition.mem_heads.1 (List.mem_of_getElem? at_i)).2

theorem heads_lt {i j : Nat} {first second : State} (below : i < j)
    (at_i : d.classes.heads[i]? = some first) (at_j : d.classes.heads[j]? = some second) :
    first < second := by
  obtain ⟨left, rfl⟩ := List.getElem?_eq_some_iff.1 at_i
  obtain ⟨right, rfl⟩ := List.getElem?_eq_some_iff.1 at_j
  exact List.pairwise_iff_getElem.1 d.ascending_heads i j left right below

def classOf (d : Dfa) (q : State) : State := d.classes.heads.idxOf (d.classes.leader q)

theorem classOf_eq_of_head {i : Nat} {head q : State} (at_i : d.classes.heads[i]? = some head)
    (leader : d.classes.leader q = head) : d.classOf q = i := by
  obtain ⟨inside, rfl⟩ := List.getElem?_eq_some_iff.1 at_i
  rw [classOf, leader, d.nodup_heads.idxOf_getElem]

theorem head_classOf {q : State} (inside : q < d.numStates) :
    d.classes.heads[d.classOf q]? = some (d.classes.leader q) := by
  have below := List.idxOf_lt_length_of_mem (leader_mem_heads inside)
  rw [classOf, List.getElem?_eq_getElem below, List.getElem_idxOf below]

theorem classOf_eq_iff (wf : d.WellFormed) {p q : State} (left : p < d.numStates)
    (right : q < d.numStates) : d.classOf p = d.classOf q ↔ d.Alike p q := by
  rw [← same_classes_iff wf left right]
  constructor
  · intro same
    have heads := head_classOf left
    rw [same, head_classOf right] at heads
    exact (Option.some.inj heads).symm
  · exact classOf_eq_of_head (head_classOf right)

@[simp] theorem alphabet_minimize (d : Dfa) : d.minimize.alphabet = d.alphabet := rfl

theorem start_minimize (d : Dfa) : d.minimize.start = d.classOf d.start := rfl

theorem origin?_minimize (d : Dfa) (i : State) : d.minimize.origin? i =
    d.classes.heads[i]?.map fun head => SortedSet.ofList (d.classes.members head) := by
  rw [origin?, minimize, List.getElem?_toArray, List.getElem?_map]

theorem numStates_minimize (d : Dfa) : d.minimize.numStates = d.classes.heads.length := by
  simp [minimize, numStates]

theorem exists_head {i : State} (inside : i < d.minimize.numStates) :
    ∃ head, d.classes.heads[i]? = some head ∧ head < d.numStates ∧ d.classOf head = i := by
  rw [numStates_minimize] at inside
  have at_i := List.getElem?_eq_getElem inside
  exact ⟨_, at_i, head_lt at_i, classOf_eq_of_head at_i (leader_head at_i)⟩

theorem classOf_lt {q : State} (inside : q < d.numStates) : d.classOf q < d.minimize.numStates := by
  rw [numStates_minimize]
  exact List.idxOf_lt_length_of_mem (leader_mem_heads inside)

theorem table_minimize (d : Dfa) : d.minimize.table =
    (d.classes.heads.flatMap fun head =>
      d.minimize.alphabet.toList.map fun c => (d.next? head c).map d.classOf).toArray := by
  simp only [minimize, row_eq_map_next?, List.map_map]
  rfl

theorem next?_minimize {i : Nat} {head : State} (at_i : d.classes.heads[i]? = some head)
    (c : Char) : d.minimize.next? i c = (d.next? head c).map d.classOf := by
  rw [next?_of_rows (table_minimize d), at_i, Option.bind_some]
  split
  · rfl
  next unknown =>
    rw [alphabet_minimize] at unknown
    rw [next?_eq_none_of_not_mem unknown, Option.map_none]

theorem isAccepting_minimize {i : Nat} {head : State} (at_i : d.classes.heads[i]? = some head) :
    d.minimize.isAccepting i = d.isAccepting head := by
  rw [isAccepting, Array.getD_eq_getD_getElem?, minimize, List.getElem?_toArray,
    List.getElem?_map, at_i]
  rfl

theorem wellFormed_minimize (wf : d.WellFormed) : d.minimize.WellFormed where
  nonempty := Nat.lt_of_le_of_lt (Nat.zero_le _) (classOf_lt wf.start_lt)
  table_size := by
    rw [size_of_rows (table_minimize d)]
    simp [minimize]
  origins_size := by simp [minimize]
  start_lt := classOf_lt wf.start_lt
  cell_lt q mem := by
    obtain ⟨head, _, c, _, cell⟩ := mem_of_rows (table_minimize d) mem
    obtain ⟨target, next, rfl⟩ := Option.map_eq_some_iff.1 cell
    exact classOf_lt (wf.next?_lt next)

/-- A state and the leader of its class are alike. -/
theorem alike_leader (wf : d.WellFormed) {q : State} (inside : q < d.numStates) :
    d.Alike (d.classes.leader q) q := by
  have at_q := head_classOf inside
  refine (same_classes_iff wf (head_lt at_q) inside).1 ?_
  rw [Partition.Same, leader_head at_q]

/-- The class of a state leads where the state leads. -/
theorem next?_classOf (wf : d.WellFormed) {q : State} (inside : q < d.numStates) (c : Char) :
    d.minimize.next? (d.classOf q) c = (d.next? q c).map d.classOf := by
  rw [next?_minimize (head_classOf inside)]
  rcases (alike_leader wf inside).next? c with ⟨first, second⟩ | ⟨x, y, first, second, alike⟩
  · rw [first, second]
  · rw [first, second, Option.map_some, Option.map_some,
      (classOf_eq_iff wf (wf.next?_lt first) (wf.next?_lt second)).2 alike]

theorem isAccepting_classOf (wf : d.WellFormed) {q : State} (inside : q < d.numStates) :
    d.minimize.isAccepting (d.classOf q) = d.isAccepting q := by
  rw [isAccepting_minimize (head_classOf inside)]
  exact (alike_leader wf inside).isAccepting_eq

theorem run?_classOf (wf : d.WellFormed) {q : State} (inside : q < d.numStates)
    (w : List Char) : d.minimize.run? (d.classOf q) w = (d.run? q w).map d.classOf := by
  induction w generalizing q with
  | nil => rfl
  | cons c w ih =>
    rw [run?_cons, run?_cons, next?_classOf wf inside]
    cases next : d.next? q c with
    | none => rfl
    | some p => exact ih (wf.next?_lt next)

/-- The class of a state behaves as the state itself. -/
theorem outcome_classOf (wf : d.WellFormed) {q : State} (inside : q < d.numStates)
    (w : List Char) : d.minimize.outcome (d.classOf q) w = d.outcome q w := by
  rw [outcome, outcome, run?_classOf wf inside, Option.map_map]
  refine Option.map_congr fun p run => ?_
  exact isAccepting_classOf wf (wf.run?_lt inside run)

theorem accepts_minimize (wf : d.WellFormed) (w : List Char) :
    d.minimize.accepts w = d.accepts w := by
  rw [accepts_eq_outcome, accepts_eq_outcome, start_minimize, outcome_classOf wf wf.start_lt]

/-- No two states of a minimized automaton are alike. -/
theorem eq_of_alike_minimize (wf : d.WellFormed) {i j : State} (left : i < d.minimize.numStates)
    (right : j < d.minimize.numStates) (alike : d.minimize.Alike i j) : i = j := by
  obtain ⟨p, _, insideP, rfl⟩ := exists_head left
  obtain ⟨q, _, insideQ, rfl⟩ := exists_head right
  refine (classOf_eq_iff wf insideP insideQ).2 fun w => ?_
  rw [← outcome_classOf wf insideP, ← outcome_classOf wf insideQ]
  exact alike w

end Lexing.Dfa
