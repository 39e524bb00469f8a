import Lexing.Dfa.Basic

set_option autoImplicit false

namespace Lexing

/-- In a list without repeats the first place of a member is its only one. -/
theorem idxOf?_eq_some_iff_of_nodup {α : Type} [DecidableEq α] {l : List α} (nodup : l.Nodup)
    {a : α} {i : Nat} : l.idxOf? a = some i ↔ l[i]? = some a := by
  rw [List.idxOf?_eq_some_iff, List.getElem?_eq_some_iff]
  constructor
  · rintro ⟨inside, same, _⟩
    exact ⟨inside, same⟩
  · rintro ⟨inside, same⟩
    refine ⟨inside, same, fun j below equal => ?_⟩
    exact List.pairwise_iff_getElem.1 nodup j i (by omega) inside below (equal.trans same.symm)

namespace SortedSet

variable {α : Type} [Ord α] [DecidableEq α]

theorem index?_lt {s : SortedSet α} {a : α} {i : Nat} (found : s.index? a = some i) :
    i < s.size := (List.getElem?_eq_some_iff.1 (index?_eq_some found)).1

theorem index?_eq_none_iff {s : SortedSet α} {a : α} : s.index? a = none ↔ a ∉ s := by
  rw [index?, List.idxOf?_eq_none_iff, mem_def]

theorem index?_eq_some_iff [Std.LawfulEqOrd α] {s : SortedSet α} {a : α} {i : Nat} :
    s.index? a = some i ↔ s.toList[i]? = some a :=
  idxOf?_eq_some_iff_of_nodup s.nodup_toList

end SortedSet

/-- The cells of a table that is made of rows of one width. -/
theorem getElem?_flatMap_of_width {α β : Type} {f : α → List β} {width : Nat} {l : List α}
    (rows : ∀ a ∈ l, (f a).length = width) {q i : Nat} (inside : i < width) :
    (l.flatMap f)[q * width + i]? = l[q]?.bind fun a => (f a)[i]? := by
  induction l generalizing q with
  | nil => simp
  | cons a rest ih =>
    have first := rows a List.mem_cons_self
    rw [List.flatMap_cons]
    cases q with
    | zero =>
      rw [Nat.zero_mul, Nat.zero_add, List.getElem?_append_left (first ▸ inside)]
      rfl
    | succ q =>
      have later : (f a).length ≤ (q + 1) * width + i := by
        rw [first, Nat.succ_mul]
        omega
      rw [List.getElem?_append_right later, first,
        show (q + 1) * width + i - width = q * width + i by rw [Nat.succ_mul]; omega,
        ih fun b mem => rows b (List.mem_cons_of_mem a mem)]
      rfl

namespace Dfa

theorem next?_eq_some_iff {d : Dfa} {p q : State} {c : Char} :
    d.next? p c = some q ↔
      ∃ i, d.alphabet.index? c = some i ∧ d.table[p * d.alphabet.size + i]? = some (some q) := by
  rw [next?]
  cases d.alphabet.index? c with
  | none => simp
  | some i =>
    dsimp only
    rw [Array.getD_eq_getD_getElem?]
    cases cell : d.table[p * d.alphabet.size + i]? <;> simp [cell]

theorem next?_eq_none_of_not_mem {d : Dfa} {q : State} {c : Char} (unknown : c ∉ d.alphabet) :
    d.next? q c = none := by
  rw [next?, SortedSet.index?_eq_none_iff.2 unknown]

theorem WellFormed.next?_lt {d : Dfa} (wf : d.WellFormed) {p q : State} {c : Char}
    (next : d.next? p c = some q) : q < d.numStates :=
  wf.cell_lt q (mem_table_of_next? next)

theorem WellFormed.lt_of_next? {d : Dfa} (wf : d.WellFormed) {p q : State} {c : Char}
    (next : d.next? p c = some q) : p < d.numStates := by
  obtain ⟨i, found, cell⟩ := next?_eq_some_iff.1 next
  obtain ⟨inside, _⟩ := Array.getElem?_eq_some_iff.1 cell
  rw [wf.table_size] at inside
  exact Nat.lt_of_mul_lt_mul_right (Nat.lt_of_le_of_lt (Nat.le_add_right _ i) inside)

/-- The index of a state and a column is that of a cell. -/
theorem WellFormed.index_lt {d : Dfa} (wf : d.WellFormed) {q i : Nat} (line : q < d.numStates)
    (column : i < d.alphabet.size) : q * d.alphabet.size + i < d.table.size := by
  have lines : (q + 1) * d.alphabet.size ≤ d.accepting.size * d.alphabet.size :=
    Nat.mul_le_mul_right d.alphabet.size line
  rw [Nat.succ_mul] at lines
  rw [wf.table_size]
  omega

theorem WellFormed.getElem?_table {d : Dfa} (wf : d.WellFormed) {q : State} {i : Nat} {c : Char}
    (line : q < d.numStates) (letter : d.alphabet.toList[i]? = some c) :
    d.table[q * d.alphabet.size + i]? = some (d.next? q c) := by
  obtain ⟨inside, rfl⟩ := List.getElem?_eq_some_iff.1 letter
  have bound := wf.index_lt line inside
  rw [next?_toList_getElem, Array.getD_eq_getD_getElem?, Array.getElem?_eq_getElem bound,
    Option.getD_some]

/-- Different lines and columns have different indices. -/
theorem index_eq_iff {width p q x y : Nat} (left : q < width) (right : y < width) :
    p * width + q = x * width + y ↔ p = x ∧ q = y := by
  constructor
  · intro same
    have lines := congrArg (· / width) same
    have columns := congrArg (· % width) same
    simp only [Nat.mul_comm _ width, Nat.mul_add_div (Nat.zero_lt_of_lt left),
      Nat.div_eq_of_lt left, Nat.div_eq_of_lt right, Nat.mul_add_mod,
      Nat.mod_eq_of_lt left, Nat.mod_eq_of_lt right, Nat.add_zero] at lines columns
    exact ⟨lines, columns⟩
  · rintro ⟨rfl, rfl⟩
    rfl

/-- Writing into a cell changes the successor of its state on its character and no other one. -/
theorem next?_redirect {d : Dfa} {source target : State} {c : Char} {i : Nat}
    (bound : source * d.alphabet.size + i < d.table.size) (found : d.alphabet.index? c = some i)
    (q : State) (a : Char) :
    next? { d with table := d.table.setIfInBounds (source * d.alphabet.size + i) (some target) } q a =
      if q = source ∧ a = c then some target else d.next? q a := by
  unfold next?
  dsimp only
  cases other : d.alphabet.index? a with
  | none =>
    have apart : a ≠ c := by
      rintro rfl
      rw [found] at other
      cases other
    simp [apart]
  | some j =>
    have column : i = j ↔ a = c := by
      constructor
      · rintro rfl
        exact Option.some.inj
          ((SortedSet.index?_eq_some other).symm.trans (SortedSet.index?_eq_some found))
      · rintro rfl
        exact Option.some.inj (found.symm.trans other)
    have cell : source * d.alphabet.size + i = q * d.alphabet.size + j ↔ q = source ∧ a = c := by
      rw [index_eq_iff (SortedSet.index?_lt found) (SortedSet.index?_lt other), column, eq_comm]
    simp only [Array.getD_eq_getD_getElem?, Array.getElem?_setIfInBounds, cell, bound, if_true]
    split <;> rfl

@[simp] theorem next?_addState (d : Dfa) (q : State) (c : Char) :
    d.addState.next? q c = d.next? q c := by
  have same : d.addState.alphabet = d.alphabet := rfl
  rw [next?, next?, same]
  cases d.alphabet.index? c with
  | none => rfl
  | some i =>
    simp only [addState, Array.getD_eq_getD_getElem?, Array.getElem?_append]
    split
    · rfl
    next outside =>
      rw [Array.getElem?_eq_none (Nat.not_lt.1 outside), Array.getElem?_replicate]
      split <;> rfl

/-- Every cell of the table is the successor of some state on some character. -/
theorem WellFormed.cell_eq_next? {d : Dfa} (wf : d.WellFormed) {i : Nat}
    (inside : i < d.table.size) :
    ∃ c, d.alphabet.toList[i % d.alphabet.size]? = some c ∧
      d.table[i] = d.next? (i / d.alphabet.size) c := by
  have width : 0 < d.alphabet.size := by
    refine Nat.pos_of_ne_zero fun empty => ?_
    rw [wf.table_size, empty] at inside
    exact Nat.not_lt_zero i inside
  have column : i % d.alphabet.size < d.alphabet.toList.length := Nat.mod_lt i width
  refine ⟨_, List.getElem?_eq_getElem column, ?_⟩
  rw [next?_toList_getElem, Nat.div_add_mod', Array.getD_eq_getD_getElem?,
    Array.getElem?_eq_getElem inside, Option.getD_some]

/-- The cells of the table are the successors of the states on the characters of the alphabet. -/
theorem WellFormed.mem_table_iff {d : Dfa} (wf : d.WellFormed) {cell : Option State} :
    cell ∈ d.table ↔ ∃ q < d.numStates, ∃ c ∈ d.alphabet, d.next? q c = cell := by
  constructor
  · intro mem
    obtain ⟨i, inside, rfl⟩ := Array.mem_iff_getElem.1 mem
    obtain ⟨c, letter, same⟩ := wf.cell_eq_next? inside
    have line : i / d.alphabet.size < d.numStates := by
      apply Nat.div_lt_of_lt_mul
      rw [Nat.mul_comm]
      exact wf.table_size ▸ inside
    exact ⟨i / d.alphabet.size, line, c, List.mem_of_getElem? letter, same.symm⟩
  · intro h
    obtain ⟨q, inside, c, known, rfl⟩ := h
    cases found : d.alphabet.index? c with
    | none => exact absurd known (SortedSet.index?_eq_none_iff.1 found)
    | some i =>
      exact Array.mem_of_getElem? (wf.getElem?_table inside (SortedSet.index?_eq_some found))

theorem WellFormed.isTotal_iff {d : Dfa} (wf : d.WellFormed) : d.isTotal = true ↔
    ∀ q < d.numStates, ∀ c ∈ d.alphabet, (d.next? q c).isSome = true := by
  rw [isTotal, Array.all_eq_true_iff_forall_mem]
  constructor
  · intro total q inside c known
    exact total _ (wf.mem_table_iff.2 ⟨q, inside, c, known, rfl⟩)
  · intro total cell mem
    obtain ⟨q, inside, c, known, rfl⟩ := wf.mem_table_iff.1 mem
    exact total q inside c known

theorem isAccepting_eq_false_of_le {d : Dfa} {q : State} (outside : d.numStates ≤ q) :
    d.isAccepting q = false := by
  rw [isAccepting, Array.getD_eq_getD_getElem?, Array.getElem?_eq_none outside, Option.getD_none]

/-- Enumeration finds by division and remainder what look-up finds by the index. -/
theorem mem_transitions_iff {d : Dfa} {p q : State} {c : Char} :
    (p, c, q) ∈ d.transitions ↔ d.next? p c = some q := by
  rw [next?_eq_some_iff, transitions, List.mem_filterMap]
  have symbols : ∀ j, d.alphabet.toList.toArray[j]? = some c ↔ d.alphabet.index? c = some j := by
    intro j
    rw [SortedSet.index?_eq_some_iff, List.getElem?_toArray]
  have width : d.alphabet.toList.toArray.size = d.alphabet.size := rfl
  constructor
  · rintro ⟨⟨cell, i⟩, mem, result⟩
    rw [List.mem_zipIdx_iff_getElem?, Array.getElem?_toList] at mem
    dsimp only at mem result
    split at result
    next target letter known =>
      cases result
      refine ⟨i % d.alphabet.size, (symbols _).1 known, ?_⟩
      rw [width, Nat.div_add_mod']
      exact mem
    · cases result
  · rintro ⟨i, found, cell⟩
    have inside := SortedSet.index?_lt found
    refine ⟨(some q, p * d.alphabet.size + i), ?_, ?_⟩
    · rw [List.mem_zipIdx_iff_getElem?, Array.getElem?_toList]
      exact cell
    · have column : (p * d.alphabet.size + i) % d.alphabet.size = i := by
        rw [Nat.mul_add_mod_self_right, Nat.mod_eq_of_lt inside]
      have line : (p * d.alphabet.size + i) / d.alphabet.size = p := by
        rw [Nat.mul_comm, Nat.mul_add_div (by omega), Nat.div_eq_of_lt inside, Nat.add_zero]
      simp only [width, column, line, (symbols i).2 found]

/-- One transition comes before another by its state, or by its character at the same state. -/
def Precedes (s t : State × Char × State) : Prop := s.1 < t.1 ∨ s.1 = t.1 ∧ s.2.1 < t.2.1

theorem Precedes.ne {s t : State × Char × State} (before : Precedes s t) : s ≠ t := by
  rintro rfl
  rcases before with below | ⟨-, below⟩
  · exact Nat.lt_irrefl _ below
  · exact Char.lt_irrefl _ below

/-- The cells come in the order of their lines, and in a line in the order of the characters. -/
theorem precedes_of_index_lt {symbols : SortedSet Char} {i j : Nat} {c a : Char} {p q : State}
    (before : i < j) (left : symbols.toList[i % symbols.size]? = some c)
    (right : symbols.toList[j % symbols.size]? = some a) :
    Precedes (i / symbols.size, c, p) (j / symbols.size, a, q) := by
  rcases Nat.lt_or_eq_of_le (Nat.div_le_div_right (Nat.le_of_lt before)) with below | same
  · exact .inl below
  · have columns : i % symbols.size < j % symbols.size := by
      have first := Nat.div_add_mod i symbols.size
      have second := Nat.div_add_mod j symbols.size
      rw [same] at first
      omega
    obtain ⟨_, rfl⟩ := List.getElem?_eq_some_iff.1 left
    obtain ⟨_, rfl⟩ := List.getElem?_eq_some_iff.1 right
    exact .inr ⟨same, List.pairwise_iff_getElem.1 symbols.ascending_chars _ _ _ _ columns⟩

theorem pairwise_transitions (d : Dfa) : d.transitions.Pairwise Precedes := by
  have indices : d.table.toList.zipIdx.Pairwise fun x y => x.2 < y.2 := by
    rw [← List.pairwise_map (f := Prod.snd) (R := (· < ·)), List.zipIdx_map_snd]
    exact List.pairwise_lt_range'
  refine indices.filterMap _ fun x y before s left t right => ?_
  dsimp only at left right
  split at left
  next p c first =>
    split at right
    next q a second =>
      cases left
      cases right
      rw [List.getElem?_toArray] at first second
      exact precedes_of_index_lt before first second
    · cases right
  · cases left

section Rows

variable {α : Type} {d : Dfa} {items : List α} {move : α → Char → Option State}

/-- The successors in a table with one row for each item. -/
theorem next?_of_rows
    (table : d.table = (items.flatMap fun a => d.alphabet.toList.map (move a)).toArray)
    (q : State) (c : Char) :
    d.next? q c = if c ∈ d.alphabet then items[q]?.bind fun a => move a c else none := by
  by_cases known : c ∈ d.alphabet
  · rw [if_pos known, next?]
    cases found : d.alphabet.index? c with
    | none => exact absurd known (SortedSet.index?_eq_none_iff.1 found)
    | some i =>
      have letter := SortedSet.index?_eq_some found
      have width : ∀ a ∈ items, (d.alphabet.toList.map (move a)).length = d.alphabet.size :=
        fun a _ => List.length_map (move a)
      dsimp only
      rw [Array.getD_eq_getD_getElem?, table, List.getElem?_toArray,
        getElem?_flatMap_of_width width (SortedSet.index?_lt found)]
      cases items[q]? <;> simp [letter]
  · rw [if_neg known, next?_eq_none_of_not_mem known]

theorem size_of_rows
    (table : d.table = (items.flatMap fun a => d.alphabet.toList.map (move a)).toArray) :
    d.table.size = items.length * d.alphabet.size := by
  rw [table, List.size_toArray, List.length_flatMap]
  simp [SortedSet.size, List.map_const']

theorem mem_of_rows
    (table : d.table = (items.flatMap fun a => d.alphabet.toList.map (move a)).toArray)
    {cell : Option State} (mem : cell ∈ d.table) :
    ∃ a ∈ items, ∃ c ∈ d.alphabet, move a c = cell := by
  rw [table, List.mem_toArray, List.mem_flatMap] at mem
  obtain ⟨a, item, inRow⟩ := mem
  obtain ⟨c, letter, same⟩ := List.mem_map.1 inRow
  exact ⟨a, item, c, letter, same⟩

end Rows

end Dfa

end Lexing
