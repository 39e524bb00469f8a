import Lexing.Proofs.Dfa.WellFormed

set_option autoImplicit false

namespace Lexing.Dfa

variable {d : Dfa}

theorem next?_new (symbols : List Char) (q : State) (c : Char) : (new symbols).next? q c = none := by
  refine Option.eq_none_iff_forall_ne_some.2 fun p next => ?_
  have absent : some p = none := Array.eq_of_mem_replicate (mem_table_of_next? next)
  cases absent

@[simp] theorem alphabet_apply (d : Dfa) (e : Edit) : (d.apply e).1.alphabet = d.alphabet := by
  cases e with
  | addState => rfl
  | setStart q | setAccepting q value =>
    rw [apply]
    split <;> rfl
  | addTransition source c target =>
    rw [apply]
    split
    · rfl
    · split
      · rfl
      · split <;> rfl

theorem alphabet_applyAll (d : Dfa) (edits : List Edit) :
    (d.applyAll edits).alphabet = d.alphabet := by
  induction edits generalizing d with
  | nil => rfl
  | cons e rest ih => rw [applyAll, ih, alphabet_apply]

/-- A transition can be added exactly between existing states and on a character of the alphabet. -/
theorem isOk_addTransition_iff {source target : State} {c : Char} :
    (d.apply (.addTransition source c target)).2.isOk = true ↔
      source < d.numStates ∧ target < d.numStates ∧ c ∈ d.alphabet := by
  rw [apply]
  split
  next outside => simp [Except.isOk, Except.toBool, Nat.not_lt.2 outside]
  next inside =>
    split
    next outside => simp [Except.isOk, Except.toBool, Nat.not_lt.2 outside]
    next below =>
      rw [Nat.not_le] at inside below
      cases found : d.alphabet.index? c with
      | none =>
        simp [Except.isOk, Except.toBool, SortedSet.index?_eq_none_iff.1 found]
      | some i =>
        have known : c ∈ d.alphabet :=
          List.mem_of_getElem? (SortedSet.index?_eq_some found)
        simp [Except.isOk, Except.toBool, inside, below, known]

/-- An edit that goes well sets what it names, and nothing else is ever set. -/
theorem WellFormed.next?_apply (wf : d.WellFormed) (e : Edit) (q : State) (c : Char) :
    (d.apply e).1.next? q c =
      if (d.apply e).2.isOk then (e.target? q c).or (d.next? q c) else d.next? q c := by
  cases e with
  | addState => exact next?_addState d q c
  | setStart p | setAccepting p value =>
    rw [Dfa.apply]
    split <;> rfl
  | addTransition source a target =>
    rw [Dfa.apply]
    split
    · rfl
    next inside =>
      split
      · rfl
      · cases found : d.alphabet.index? a with
        | none => rfl
        | some i =>
          have bound := wf.index_lt (Nat.lt_of_not_le inside) (SortedSet.index?_lt found)
          refine (next?_redirect bound found q c).trans ?_
          rw [Edit.target?]
          split <;> rfl

/-- Edits of other kinds keep all transitions. -/
theorem WellFormed.next?_apply_of_ne (wf : d.WellFormed) {e : Edit}
    (other : ∀ source a target, e ≠ .addTransition source a target) (q : State) (c : Char) :
    (d.apply e).1.next? q c = d.next? q c := by
  have silent : e.target? q c = none := by
    cases e with
    | addTransition source a target => exact absurd rfl (other source a target)
    | addState | setStart _ | setAccepting _ _ => rfl
  rw [wf.next?_apply, silent, Option.none_or, ite_self]

/-- What was set last is there, or what was there before if nothing was set. -/
theorem WellFormed.next?_applyAll (wf : d.WellFormed) (edits : List Edit) (q : State) (c : Char) :
    (d.applyAll edits).next? q c =
      ((d.successes edits).filterMap (Edit.target? q c)).getLast?.or (d.next? q c) := by
  induction edits generalizing d with
  | nil => rfl
  | cons e rest ih =>
    rw [applyAll, ih (wf.apply e), wf.next?_apply, successes]
    split
    · cases target : e.target? q c with
      | none => rw [List.filterMap_cons_none target, Option.none_or]
      | some p =>
        rw [List.filterMap_cons_some target, List.getLast?_cons]
        cases ((d.apply e).1.successes rest |>.filterMap (Edit.target? q c)).getLast? <;> rfl
    · rfl

/-- The table after any edits is a finite map: the successor of a state on a character is the target of
the last transition that was added for both, and adding goes well for existing states and characters of
the alphabet. The other edits do not touch this map. The transitions are its entries, in ascending order
and each once. -/
theorem table_is_map {symbols : List Char} {edits : List Edit}
    (made : (new symbols).applyAll edits = d) :
    (∀ q c, d.next? q c =
      (((new symbols).successes edits).filterMap (Edit.target? q c)).getLast?) ∧
    (∀ q c, d.numStates ≤ q ∨ c ∉ symbols → d.next? q c = none) ∧
    (∀ source c target, (d.apply (.addTransition source c target)).2.isOk = true ↔
      source < d.numStates ∧ target < d.numStates ∧ c ∈ symbols) ∧
    (∀ e, (∀ source a target, e ≠ .addTransition source a target) →
      ∀ q c, (d.apply e).1.next? q c = d.next? q c) ∧
    (∀ q c p, (q, c, p) ∈ d.transitions ↔ d.next? q c = some p) ∧
    d.transitions.Pairwise Precedes ∧ d.transitions.Nodup := by
  have wf : d.WellFormed := made ▸ ((Built.new symbols).applyAll edits).wellFormed
  have letters : ∀ c, c ∈ d.alphabet ↔ c ∈ symbols := by
    intro c
    rw [← made, alphabet_applyAll]
    exact SortedSet.mem_ofList
  refine ⟨fun q c => ?_, fun q c unknown => ?_, fun source c target => ?_,
    fun e other => wf.next?_apply_of_ne other, fun q c p => mem_transitions_iff,
    d.pairwise_transitions, d.pairwise_transitions.imp Precedes.ne⟩
  · rw [← made, (wellFormed_new symbols).next?_applyAll, next?_new, Option.or_none]
  · refine Option.eq_none_iff_forall_ne_some.2 fun p next => ?_
    rcases unknown with outside | unknown
    · exact Nat.not_lt.2 outside (wf.lt_of_next? next)
    · rw [next?_eq_none_of_not_mem (mt (letters c).1 unknown)] at next
      cases next
  · rw [isOk_addTransition_iff, letters]

/-- One transition is set twice, with two failed additions in between and growth before and after. -/
def overwritten : List Edit :=
  [.addState, .addTransition 0 'b' 1, .addTransition 0 'a' 2, .addState, .addTransition 0 'c' 1,
    .addTransition 1 'a' 1, .addTransition 0 'b' 2, .setStart 2, .addState]

theorem table_is_map_overwritten : ∃ d, (new ['b', 'a', 'b']).applyAll overwritten = d ∧
    d.next? 0 'b' = some 2 ∧ d.next? 0 'a' = none ∧ d.next? 9 'a' = none ∧ d.next? 0 'c' = none ∧
    (d.apply (.addTransition 3 'a' 0)).2.isOk = true ∧ d.addState.next? 0 'b' = some 2 ∧
    d.transitions = [(0, 'b', 2), (1, 'a', 1)] ∧ d.transitions.Pairwise Precedes := by
  obtain ⟨last, unknown, adds, kept, -, ascending, -⟩ :=
    table_is_map (rfl : (new ['b', 'a', 'b']).applyAll overwritten = _)
  have twice : ((new ['b', 'a', 'b']).applyAll overwritten).next? 0 'b' = some 2 := by
    rw [last]
    decide
  refine ⟨_, rfl, twice, ?_, unknown 9 'a' (.inl (by decide)), unknown 0 'c' (.inr (by decide)),
    (adds 3 'a' 0).2 (by decide), ?_, by decide, ascending⟩
  · rw [last]
    decide
  · exact (kept .addState (fun _ _ _ same => by cases same) 0 'b').trans twice

end Lexing.Dfa
