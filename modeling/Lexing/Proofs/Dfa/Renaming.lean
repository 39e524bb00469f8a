import Lexing.Proofs.Dfa.WellFormed
import Lexing.Proofs.Guarded.Isomorphism
import Mathlib.Data.Finset.Card
import Mathlib.Order.Interval.Finset.Nat

set_option autoImplicit false

namespace Lexing.Dfa

variable {a b : Dfa} {f : State → State}

def Reached (d : Dfa) : Prop := ∀ q < d.numStates, ∃ w, d.run? d.start w = some q

theorem reached_of_words {d : Dfa} (words : List (List Char))
    (found : ∀ q < d.numStates, ∃ w ∈ words, d.run? d.start w = some q) : d.Reached :=
  fun q inside => (found q inside).imp fun _ run => run.2

/-- A one-to-one renaming of all states that keeps the start, acceptance, transitions and gaps. -/
structure Renaming (a b : Dfa) (f : State → State) : Prop where
  bijOn : Set.BijOn f (Set.Iio a.numStates) (Set.Iio b.numStates)
  start : f a.start = b.start
  isAccepting : ∀ q < a.numStates, b.isAccepting (f q) = a.isAccepting q
  next? : ∀ q < a.numStates, ∀ c, b.next? (f q) c = (a.next? q c).map f

theorem Renaming.numStates_eq (renamed : Renaming a b f) : a.numStates = b.numStates := by
  have cards := Set.BijOn.finsetCard_eq (s := Finset.range a.numStates)
    (t := Finset.range b.numStates) f (by simpa using renamed.bijOn)
  simpa using cards

theorem Renaming.run?_eq (renamed : Renaming a b f) (wf : a.WellFormed) {q : State}
    (inside : q < a.numStates) (w : List Char) : b.run? (f q) w = (a.run? q w).map f := by
  induction w generalizing q with
  | nil => rfl
  | cons c rest ih =>
    rw [run?_cons, run?_cons, renamed.next? q inside c]
    cases next : a.next? q c with
    | none => rfl
    | some p => exact ih (wf.next?_lt next)

/-- The partner of a state is its new name. -/
theorem Renaming.eq_of_paired (renamed : Renaming a b f) (wf : a.WellFormed) {p q : State}
    (paired : Paired a b p q) : p < a.numStates ∧ q = f p := by
  obtain ⟨w, left, right⟩ := paired
  have names := renamed.run?_eq wf wf.start_lt w
  rw [renamed.start, right, left, Option.map_some] at names
  exact ⟨wf.run?_lt wf.start_lt left, Option.some.inj names⟩

theorem Renaming.isomorphic (renamed : Renaming a b f) (wf : a.WellFormed)
    (same : a.alphabet = b.alphabet) (reached : a.Reached) : Isomorphic a b where
  alphabet_eq := same
  numStates_eq := renamed.numStates_eq
  isAccepting_eq p q paired := by
    obtain ⟨inside, rfl⟩ := renamed.eq_of_paired wf paired
    exact (renamed.isAccepting p inside).symm
  isSome_eq p q paired c := by
    obtain ⟨inside, rfl⟩ := renamed.eq_of_paired wf paired
    rw [renamed.next? p inside c, Option.isSome_map]
  functional p q r first second := by
    rw [(renamed.eq_of_paired wf first).2, (renamed.eq_of_paired wf second).2]
  injective p q r first second := by
    obtain ⟨left, named⟩ := renamed.eq_of_paired wf first
    obtain ⟨right, again⟩ := renamed.eq_of_paired wf second
    exact renamed.bijOn.injOn left right (named.symm.trans again)
  covers p inside := by
    obtain ⟨w, run⟩ := reached p inside
    refine ⟨f p, w, run, ?_⟩
    rw [← renamed.start, renamed.run?_eq wf wf.start_lt, run, Option.map_some]

theorem Isomorphic.reached (isomorphic : Isomorphic a b) : a.Reached := by
  intro p inside
  obtain ⟨q, w, run, _⟩ := isomorphic.covers p inside
  exact ⟨w, run⟩

theorem Isomorphic.next?_eq (isomorphic : Isomorphic a b) (wf : a.WellFormed)
    (partner : ∀ p < a.numStates, Paired a b p (f p)) {q : State} (inside : q < a.numStates)
    (c : Char) : b.next? (f q) c = (a.next? q c).map f := by
  have paired := partner q inside
  have defined := isomorphic.isSome_eq q (f q) paired c
  cases left : a.next? q c with
  | none =>
    rw [left] at defined
    rw [Option.map_none]
    exact Option.isNone_iff_eq_none.1 (Option.isSome_eq_false_iff.1 defined.symm)
  | some x =>
    rw [left] at defined
    obtain ⟨y, right⟩ := Option.isSome_iff_exists.1 defined.symm
    have named := isomorphic.functional x y (f x) (paired.next left right)
      (partner x (wf.next?_lt left))
    rw [right, named, Option.map_some]

theorem Isomorphic.exists_renaming (isomorphic : Isomorphic a b) (left : a.WellFormed)
    (right : b.WellFormed) : ∃ f, Renaming a b f := by
  choose! f partner using isomorphic.covers
  have mapsTo : Set.MapsTo f (Set.Iio a.numStates) (Set.Iio b.numStates) := by
    intro p inside
    obtain ⟨w, _, run⟩ := partner p inside
    exact right.run?_lt right.start_lt run
  have injOn : Set.InjOn f (Set.Iio a.numStates) := by
    intro p atP q atQ same
    exact isomorphic.injective p q (f p) (partner p atP) (same ▸ partner q atQ)
  -- there are as many states on both sides, so no name is left over
  have surjOn : Set.SurjOn f (Set.Iio a.numStates) (Set.Iio b.numStates) := by
    rw [← Finset.coe_range, ← Finset.coe_range] at mapsTo ⊢
    rw [← Finset.coe_range] at injOn
    refine Finset.surjOn_of_injOn_of_card_le f mapsTo injOn ?_
    rw [Finset.card_range, Finset.card_range, isomorphic.numStates_eq]
  exact ⟨f, {
    bijOn := ⟨mapsTo, injOn, surjOn⟩
    start := isomorphic.functional a.start _ _ (partner a.start left.start_lt) (paired_start a b)
    isAccepting := fun p inside => (isomorphic.isAccepting_eq p (f p) (partner p inside)).symm
    next? := fun p inside c => isomorphic.next?_eq left partner inside c }⟩

/-- The comparison finds out whether there is a renaming, provided that every state can be reached.
Pairing the states with a queue comes to the same answer. -/
theorem isIsomorphic_iff_renaming (left : a.WellFormed) (right : b.WellFormed) :
    Guarded.isIsomorphic a b = some (a.isIsomorphic b) ∧
    (a.isIsomorphic b = true ↔ a.alphabet = b.alphabet ∧ a.Reached ∧ ∃ f, Renaming a b f) := by
  refine ⟨Guarded.isIsomorphic_eq left right, ?_⟩
  rw [isIsomorphic_iff]
  constructor
  · intro isomorphic
    exact ⟨isomorphic.alphabet_eq, isomorphic.reached, isomorphic.exists_renaming left right⟩
  · rintro ⟨same, reached, f, renamed⟩
    exact renamed.isomorphic left same reached

/-- From 0 over 1 to 2, which accepts, and from there to itself. -/
def path : Dfa :=
  (new ['a', 'b']).applyAll [.addState, .addState, .setAccepting 2 true, .addTransition 0 'b' 1,
    .addTransition 1 'a' 2, .addTransition 2 'b' 2]

theorem reached_path : path.Reached :=
  reached_of_words [[], ['b'], ['b', 'a']] (by decide)

def otherPath : Dfa :=
  (new ['b', 'a', 'b']).applyAll [.addState, .addState, .setStart 2, .setAccepting 1 true,
    .addTransition 2 'b' 0, .addTransition 0 'a' 1, .addTransition 1 'b' 1]

theorem renaming_path : Renaming path otherPath fun q => (q + 2) % 3 where
  bijOn := by
    have distinct : ∀ p < path.numStates, ∀ q < path.numStates,
        (p + 2) % 3 = (q + 2) % 3 → p = q := by decide
    have onto : ∀ q < otherPath.numStates,
        (q + 1) % 3 < path.numStates ∧ ((q + 1) % 3 + 2) % 3 = q := by decide
    refine ⟨fun q _ => Nat.mod_lt (q + 2) (by decide), fun p left q right => distinct p left q right,
      fun q inside => ?_⟩
    exact ⟨(q + 1) % 3, onto q inside⟩
  start := by decide
  isAccepting := by decide
  next? q inside c := by
    have onA : ∀ q < path.numStates,
        otherPath.next? ((q + 2) % 3) 'a' = (path.next? q 'a').map fun q => (q + 2) % 3 := by decide
    have onB : ∀ q < path.numStates,
        otherPath.next? ((q + 2) % 3) 'b' = (path.next? q 'b').map fun q => (q + 2) % 3 := by decide
    by_cases known : c ∈ path.alphabet
    · have letters : path.alphabet.toList = ['a', 'b'] := by decide
      rw [SortedSet.mem_def, letters, List.mem_pair] at known
      rcases known with rfl | rfl
      · exact onA q inside
      · exact onB q inside
    · have same : path.alphabet = otherPath.alphabet := by decide
      rw [next?_eq_none_of_not_mem known, next?_eq_none_of_not_mem (same ▸ known), Option.map_none]

theorem isIsomorphic_iff_renaming_path : path.WellFormed ∧ otherPath.WellFormed ∧
    path.alphabet = otherPath.alphabet ∧ path.Reached ∧
    Renaming path otherPath (fun q => (q + 2) % 3) ∧ path.isIsomorphic otherPath = true ∧
    Guarded.isIsomorphic path otherPath = some true := by
  have left : path.WellFormed := ((Built.new _).applyAll _).wellFormed
  have right : otherPath.WellFormed := ((Built.new _).applyAll _).wellFormed
  have same : path.alphabet = otherPath.alphabet := by decide
  obtain ⟨paired, decides⟩ := isIsomorphic_iff_renaming left right
  have isomorphic : path.isIsomorphic otherPath = true :=
    decides.2 ⟨same, reached_path, _, renaming_path⟩
  exact ⟨left, right, same, reached_path, renaming_path, isomorphic, by rw [paired, isomorphic]⟩

end Lexing.Dfa
