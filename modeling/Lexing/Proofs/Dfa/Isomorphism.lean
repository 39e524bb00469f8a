import Lexing.Dfa.Isomorphism
import Lexing.Proofs.Dfa.Run
import Mathlib.Data.List.Induction
import Mathlib.Data.List.Nodup

set_option autoImplicit false

namespace Lexing.Dfa

variable {a b : Dfa}

/-- Some word leads to a state in one automaton and to a state in the other. -/
def Paired (a b : Dfa) (p q : State) : Prop :=
  ∃ w, a.run? a.start w = some p ∧ b.run? b.start w = some q

theorem paired_start (a b : Dfa) : Paired a b a.start b.start := ⟨[], rfl, rfl⟩

theorem Paired.symm {p q : State} (paired : Paired a b p q) : Paired b a q p := by
  obtain ⟨w, left, right⟩ := paired
  exact ⟨w, right, left⟩

theorem run?_snoc {d : Dfa} {p q : State} {w : List Char} {c : Char} :
    d.run? p (w ++ [c]) = some q ↔ ∃ r, d.run? p w = some r ∧ d.next? r c = some q := by
  rw [run?_append, Option.bind_eq_some_iff]
  simp only [run?_cons, run?_nil, Option.bind_fun_some]

theorem Paired.next {p q x y : State} {c : Char} (paired : Paired a b p q)
    (left : a.next? p c = some x) (right : b.next? q c = some y) : Paired a b x y := by
  obtain ⟨w, toP, toQ⟩ := paired
  exact ⟨w ++ [c], run?_snoc.2 ⟨p, toP, left⟩, run?_snoc.2 ⟨q, toQ, right⟩⟩

theorem mem_next_sideBySide (same : a.alphabet = b.alphabet) {p q x y : State} :
    (x, y) ∈ (sideBySide a b).next (p, q) ↔ ∃ c, a.next? p c = some x ∧ b.next? q c = some y := by
  have rows : List.zip (a.row p) (b.row q) =
      a.alphabet.toList.map fun c => (a.next? p c, b.next? q c) := by
    rw [row_eq_map_next?, row_eq_map_next?, ← same, List.zip_map']
  simp only [sideBySide, rows, List.mem_filterMap]
  constructor
  · rintro ⟨cells, mem, both⟩
    obtain ⟨c, _, rfl⟩ := List.mem_map.1 mem
    split at both
    next left right cells =>
      obtain ⟨first, second⟩ := Prod.mk.inj cells
      obtain ⟨rfl, rfl⟩ := Prod.mk.inj (Option.some.inj both)
      exact ⟨c, first, second⟩
    · cases both
  · rintro ⟨c, left, right⟩
    have letter : c ∈ a.alphabet := by
      refine Classical.byContradiction fun unknown => ?_
      rw [next?_eq_none_of_not_mem unknown] at left
      cases left
    exact ⟨_, List.mem_map.2 ⟨c, letter, rfl⟩, by rw [left, right]⟩

/-- Running both automata side by side comes upon exactly the pairs that a word leads to. -/
theorem reachable_sideBySide_iff (same : a.alphabet = b.alphabet) {p q : State} :
    (sideBySide a b).Reachable [(a.start, b.start)] (p, q) ↔ Paired a b p q := by
  constructor
  · intro walk
    generalize pair : (p, q) = at_end at walk
    induction walk generalizing p q with
    | root mem =>
      obtain ⟨rfl, rfl⟩ := Prod.mk.inj (pair.trans (List.mem_singleton.1 mem))
      exact paired_start a b
    | @step before _ _ edge ih =>
      rw [← pair] at edge
      obtain ⟨c, left, right⟩ := (mem_next_sideBySide same).1 edge
      exact (ih rfl).next left right
  · rintro ⟨w, left, right⟩
    induction w using List.reverseRecOn generalizing p q with
    | nil =>
      cases left
      cases right
      exact .root (List.mem_singleton_self _)
    | append_singleton w c ih =>
      obtain ⟨x, toX, left⟩ := run?_snoc.1 left
      obtain ⟨y, toY, right⟩ := run?_snoc.1 right
      exact (ih toX toY).step ((mem_next_sideBySide same).2 ⟨c, left, right⟩)

theorem agree_iff (same : a.alphabet = b.alphabet) {p q : State} :
    agree a b (p, q) = true ↔ a.isAccepting p = b.isAccepting q ∧
      ∀ c, (a.next? p c).isSome = (b.next? q c).isSome := by
  rw [agree, Bool.and_eq_true, beq_iff_eq, beq_iff_eq, row_eq_map_next?, row_eq_map_next?,
    ← same, List.map_map, List.map_map, List.map_inj_left]
  refine and_congr_right fun _ => ⟨fun letters c => ?_, fun all c _ => all c⟩
  by_cases known : c ∈ a.alphabet
  · exact letters c known
  · rw [next?_eq_none_of_not_mem known, next?_eq_none_of_not_mem (same ▸ known)]

/-- The pairs of states that words lead to are a renaming that makes one automaton of the other. -/
structure Isomorphic (a b : Dfa) : Prop where
  alphabet_eq : a.alphabet = b.alphabet
  numStates_eq : a.numStates = b.numStates
  isAccepting_eq : ∀ p q, Paired a b p q → a.isAccepting p = b.isAccepting q
  isSome_eq : ∀ p q, Paired a b p q → ∀ c, (a.next? p c).isSome = (b.next? q c).isSome
  functional : ∀ p q r, Paired a b p q → Paired a b p r → q = r
  injective : ∀ p q r, Paired a b p r → Paired a b q r → p = q
  covers : ∀ p < a.numStates, ∃ q, Paired a b p q

theorem isIsomorphic_iff : a.isIsomorphic b = true ↔ Isomorphic a b := by
  by_cases same : a.alphabet = b.alphabet ∧ a.numStates = b.numStates
  · have mem : ∀ p q, (p, q) ∈ (sideBySide a b).explore [(a.start, b.start)] ↔ Paired a b p q := by
      intro p q
      rw [Graph.mem_explore, reachable_sideBySide_iff same.1]
    have nodup := Graph.nodup_explore (sideBySide a b) [(a.start, b.start)]
    simp only [isIsomorphic, if_pos same, Bool.and_eq_true, List.all_eq_true, decide_eq_true_eq,
      List.nodup_map_iff_inj_on nodup, Prod.forall, mem, agree_iff same.1, List.mem_range,
      List.mem_map, Prod.exists, exists_and_right, exists_eq_right, Prod.mk.injEq]
    constructor
    · rintro ⟨⟨⟨agree, functional⟩, injective⟩, covers⟩
      exact {
        alphabet_eq := same.1
        numStates_eq := same.2
        isAccepting_eq := fun p q paired => (agree p q paired).1
        isSome_eq := fun p q paired => (agree p q paired).2
        functional := fun p q r first second => (functional p q first p r second rfl).2
        injective := fun p q r first second => (injective p r first q r second rfl).1
        covers := covers }
    · intro isomorphic
      refine ⟨⟨⟨fun p q paired => ?_, ?_⟩, ?_⟩, isomorphic.covers⟩
      · exact ⟨isomorphic.isAccepting_eq p q paired, isomorphic.isSome_eq p q paired⟩
      · rintro p q first _ r second rfl
        exact ⟨rfl, isomorphic.functional p q r first second⟩
      · rintro p r first q _ second rfl
        exact ⟨isomorphic.injective p q r first second, rfl⟩
  · rw [isIsomorphic, if_neg same]
    constructor
    · intro impossible
      cases impossible
    · intro isomorphic
      exact absurd ⟨isomorphic.alphabet_eq, isomorphic.numStates_eq⟩ same

/-- No word tells a state from its partner. -/
theorem Isomorphic.outcome_eq (isomorphic : Isomorphic a b) {p q : State} (paired : Paired a b p q)
    (w : List Char) : a.outcome p w = b.outcome q w := by
  induction w generalizing p q with
  | nil => rw [outcome_nil, outcome_nil, isomorphic.isAccepting_eq p q paired]
  | cons c w ih =>
    have defined := isomorphic.isSome_eq p q paired c
    rw [outcome_cons, outcome_cons]
    cases left : a.next? p c with
    | none =>
      cases right : b.next? q c with
      | none => rfl
      | some y => simp [left, right] at defined
    | some x =>
      cases right : b.next? q c with
      | none => simp [left, right] at defined
      | some y => exact ih (paired.next left right)

theorem Isomorphic.accepts_eq (isomorphic : Isomorphic a b) (w : List Char) :
    a.accepts w = b.accepts w := by
  rw [accepts_eq_outcome, accepts_eq_outcome, isomorphic.outcome_eq (paired_start a b)]

end Lexing.Dfa
