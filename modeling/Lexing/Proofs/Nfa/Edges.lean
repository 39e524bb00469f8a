import Lexing.Proofs.Nfa.Session
import Mathlib.Order.MinMax

set_option autoImplicit false

namespace Lexing

/-- The silent label comes before all characters, and these come in the order of their code points. -/
def Label.Precedes : Label → Label → Prop
  | none, some _ => True
  | some c, some d => c < d
  | _, none => False

theorem Label.compare_eq_lt_iff {a b : Label} : compare a b = .lt ↔ Label.Precedes a b := by
  cases a with
  | none =>
    cases b with
    | none => exact ⟨nofun, nofun⟩
    | some d => exact ⟨fun _ => trivial, fun _ => rfl⟩
  | some c =>
    cases b with
    | none => exact ⟨nofun, nofun⟩
    | some d => exact compareOfLessAndEq_eq_lt

/-- One edge comes before another by its source, at the same source by its label, and with the same label
by its target. -/
def Edge.Precedes (e f : Edge) : Prop :=
  e.source < f.source ∨ e.source = f.source ∧
    (Label.Precedes e.label f.label ∨ e.label = f.label ∧ e.target < f.target)

theorem Edge.compare_eq_lt_iff {e f : Edge} : compare e f = .lt ↔ e.Precedes f := by
  show (compare e.source f.source).then ((compare e.label f.label).then
    (compare e.target f.target)) = .lt ↔ _
  rw [Ordering.then_eq_lt, Ordering.then_eq_lt, Nat.compare_eq_lt, Nat.compare_eq_lt,
    Label.compare_eq_lt_iff, Std.LawfulEqCmp.compare_eq_iff_eq, Std.LawfulEqCmp.compare_eq_iff_eq]
  exact Iff.rfl

namespace Nfa

theorem Key.compare_eq_lt_iff {a b : Key} :
    compare a b = .lt ↔
      a.source < b.source ∨ a.source = b.source ∧ Label.Precedes a.label b.label := by
  show (compare a.source b.source).then (compare a.label b.label) = .lt ↔ _
  rw [Ordering.then_eq_lt, Nat.compare_eq_lt, Label.compare_eq_lt_iff,
    Std.LawfulEqCmp.compare_eq_iff_eq]

theorem pairwise_edges (n : Nfa) : n.edges.toList.Pairwise Edge.Precedes :=
  n.edges.ascending.imp Edge.compare_eq_lt_iff.1

namespace Keyed

/-- Edges of different keys come in the order of their keys, and edges of one key in that of their
targets. -/
theorem pairwise_edges (k : Keyed) : k.edges.Pairwise Edge.Precedes := by
  rw [edges, List.pairwise_flatMap]
  constructor
  · rintro ⟨key, targets⟩ _
    apply List.pairwise_map.2
    apply targets.ascending.imp
    intro p q below
    exact .inr ⟨rfl, .inr ⟨rfl, Nat.compare_eq_lt.1 below⟩⟩
  · apply Std.TreeMap.ordered_keys_toList.imp
    rintro ⟨first, _⟩ ⟨second, _⟩ before e left f right
    obtain ⟨p, _, rfl⟩ := List.mem_map.1 left
    obtain ⟨q, _, rfl⟩ := List.mem_map.1 right
    rcases Key.compare_eq_lt_iff.1 before with source | ⟨source, label⟩
    · exact .inl source
    · exact .inr ⟨source, .inl label⟩

/-- The entries of the map, one after the other, are the edges in order. -/
theorem toList_edges_flatten (k : Keyed) : k.flatten.edges.toList = k.edges := by
  have ascending : k.edges.Pairwise fun e f => compare e f = .lt :=
    k.pairwise_edges.imp Edge.compare_eq_lt_iff.2
  have same : k.flatten.edges = ⟨k.edges, ascending⟩ := SortedSet.ext fun e => SortedSet.mem_ofList
  rw [same]

/-- Equal in every field. Two search trees are equal if they hold the same entries in the same order, however
they are balanced. -/
structure Same (k l : Keyed) : Prop where
  alphabet : k.alphabet = l.alphabet
  numStates : k.numStates = l.numStates
  start : k.start = l.start
  transitions : k.transitions.toList = l.transitions.toList
  accepting : k.accepting = l.accepting

/-- A key has a set exactly if there are edges with this key, and it is the set of their targets. -/
theorem Filled.getElem?_eq_some_iff {k : Keyed} (filled : k.Filled) {key : Key} {targets : StateSet} :
    k.transitions[key]? = some targets ↔
      targets ≠ ∅ ∧ ∀ q, q ∈ targets ↔ ⟨key.source, key.label, q⟩ ∈ k.edges := by
  constructor
  · intro found
    constructor
    · intro empty
      exact filled key (empty ▸ found)
    · intro q
      rw [mem_edges, found]
      simp
  · rintro ⟨nonempty, members⟩
    obtain ⟨q, mem⟩ : ∃ q, q ∈ targets := by
      by_contra none
      exact nonempty (SortedSet.ext fun q => by simpa using fun mem => none ⟨q, mem⟩)
    -- The edge to one member shows that the key has a set, and this has the same members.
    obtain ⟨others, found, _⟩ := mem_edges.1 ((members q).1 mem)
    have same : others = targets := by
      apply SortedSet.ext
      intro p
      rw [members, mem_edges, found]
      simp
    rw [found, same]

/-- The edges decide what the map holds, for no set in it is empty. -/
theorem Filled.same {k l : Keyed} (left : k.Filled) (right : l.Filled)
    (flat : k.flatten = l.flatten) : k.Same l where
  alphabet := congrArg Nfa.alphabet flat
  numStates := congrArg Nfa.numStates flat
  start := congrArg Nfa.start flat
  accepting := congrArg Nfa.accepting flat
  transitions := by
    apply Std.TreeMap.Equiv.toList_eq
    apply Std.TreeMap.Equiv.of_forall_constGet?_eq
    intro key
    have edges : k.edges = l.edges := by
      rw [← toList_edges_flatten, ← toList_edges_flatten, flat]
    apply Option.ext
    intro targets
    rw [left.getElem?_eq_some_iff, right.getElem?_eq_some_iff, edges]

end Keyed

@[simp] theorem mem_edges_ofEdges {es : List Edge} {e : Edge} :
    e ∈ (ofEdges es).edges ↔ e ∈ es := SortedSet.mem_ofList

/-- Exactly the states up to the largest one on an edge exist, and the first one in any case. -/
theorem lt_numStates_ofEdges {es : List Edge} {q : State} :
    q < (ofEdges es).numStates ↔ q = 0 ∨ ∃ e ∈ es, q ≤ e.source ∨ q ≤ e.target := by
  induction es with
  | nil =>
    rw [ofEdges_nil, new, Nat.lt_one_iff]
    simp
  | cons e rest ih =>
    have grown : (ofEdges (e :: rest)).numStates =
        max (max (ofEdges rest).numStates (e.source + 1)) (e.target + 1) := rfl
    rw [grown, lt_max_iff, lt_max_iff, ih, Nat.lt_succ_iff, Nat.lt_succ_iff]
    simp only [List.mem_cons, exists_eq_or_imp]
    constructor
    · rintro (((zero | rest) | source) | target)
      · exact .inl zero
      · exact .inr (.inr rest)
      · exact .inr (.inl (.inl source))
      · exact .inr (.inl (.inr target))
    · rintro (zero | (source | target) | rest)
      · exact .inl (.inl (.inl zero))
      · exact .inl (.inr source)
      · exact .inr target
      · exact .inl (.inl (.inr rest))

/-- The order of edges and their repetition make no difference. -/
theorem ofEdges_congr {es fs : List Edge} (same : ∀ e, e ∈ es ↔ e ∈ fs) :
    ofEdges es = ofEdges fs := by
  have sizes : (ofEdges es).numStates = (ofEdges fs).numStates := by
    refine eq_of_forall_lt_iff fun q => ?_
    rw [lt_numStates_ofEdges, lt_numStates_ofEdges]
    simp only [same]
  rw [ofEdges, ofEdges, Nfa.mk.injEq]
  refine ⟨SortedSet.ext fun c => ?_, sizes, rfl, SortedSet.ext fun e => ?_, rfl⟩
  · simp only [SortedSet.mem_ofList, List.mem_filterMap, same]
  · simp only [SortedSet.mem_ofList, same]

def mentioned (es : List Edge) : List State := es.flatMap fun e => [e.source, e.target]

theorem mem_mentioned {es : List Edge} {q : State} :
    q ∈ mentioned es ↔ ∃ e ∈ es, q = e.source ∨ q = e.target := by
  simp [mentioned]

theorem numStates_ofEdges (es : List Edge) :
    (ofEdges es).numStates = (mentioned es).max?.elim 1 (· + 1) := by
  cases largest : (mentioned es).max? with
  | none =>
    cases es with
    | nil => rfl
    | cons e rest =>
      rw [List.max?_eq_none_iff] at largest
      cases largest
  | some top =>
    obtain ⟨mem, above⟩ := List.max?_eq_some_iff.1 largest
    obtain ⟨e, edge, here⟩ := mem_mentioned.1 mem
    apply eq_of_forall_lt_iff
    intro q
    rw [lt_numStates_ofEdges, Option.elim_some, Nat.lt_succ_iff]
    constructor
    · rintro (rfl | ⟨f, other, source | target⟩)
      · exact Nat.zero_le top
      · exact Nat.le_trans source (above _ (mem_mentioned.2 ⟨f, other, .inl rfl⟩))
      · exact Nat.le_trans target (above _ (mem_mentioned.2 ⟨f, other, .inr rfl⟩))
    · intro below
      rcases here with rfl | rfl
      · exact .inr ⟨e, edge, .inl below⟩
      · exact .inr ⟨e, edge, .inr below⟩

/-- An edge that has been added names no state beyond the largest possible one. -/
theorem WellFormed.lt_of_addEdge {n : Nfa} {e : Edge} (wf : n.WellFormed)
    (added : (n.addEdge e).2 = .ok ()) : e.source < maxStates ∧ e.target < maxStates := by
  rw [Nfa.addEdge] at added
  cases first : n.grow e.source with
  | error reason =>
    rw [first] at added
    cases added
  | ok withSource =>
    obtain ⟨wfSource, _, source⟩ := wf.grow first
    rw [first] at added
    dsimp only at added
    cases second : withSource.grow e.target with
    | error reason =>
      rw [second] at added
      cases added
    | ok withBoth =>
      obtain ⟨wfBoth, _, target⟩ := wfSource.grow second
      exact ⟨Nat.lt_of_lt_of_le source wfSource.size_le, Nat.lt_of_lt_of_le target wfBoth.size_le⟩

/-- All of some edges can be added to others exactly if they name no state beyond the largest one. -/
theorem applyAll?_addEdge {es before : List Edge}
    (below : ∀ e ∈ before, e.source < maxStates ∧ e.target < maxStates) :
    (ofEdges before).applyAll? (es.map .addEdge) =
      if ∀ e ∈ es, e.source < maxStates ∧ e.target < maxStates then some (ofEdges (es ++ before))
      else none := by
  induction es generalizing before with
  | nil => simp [applyAll?]
  | cons e rest ih =>
    rw [List.map_cons, applyAll?, apply]
    by_cases fits : e.source < maxStates ∧ e.target < maxStates
    · have belowAll : ∀ f ∈ e :: before, f.source < maxStates ∧ f.target < maxStates :=
        List.forall_mem_cons.2 ⟨fits, below⟩
      have reordered : ofEdges (rest ++ e :: before) = ofEdges (e :: rest ++ before) :=
        ofEdges_congr fun f => by simp [or_left_comm]
      rw [addEdge_ofEdges fits.1 fits.2]
      dsimp only
      rw [ih belowAll, reordered]
      simp only [List.forall_mem_cons, fits, true_and]
    · -- Whatever was added before, an edge with a state beyond the largest one fails.
      have failed := mt (built_ofEdges below).wellFormed.lt_of_addEdge fits
      rw [if_neg fun all => fits (all e List.mem_cons_self)]
      split
      next result =>
        rw [result] at failed
        exact absurd rfl failed
      · rfl

theorem eq_ofEdges_of_applyAll? {es : List Edge} {n : Nfa}
    (made : new.applyAll? (es.map .addEdge) = some n) : n = ofEdges es := by
  rw [← ofEdges_nil, applyAll?_addEdge (fun e mem => absurd mem List.not_mem_nil)] at made
  split at made
  · rw [List.append_nil] at made
    exact (Option.some.inj made).symm
  · cases made

/-- Edits that all go well lead to the same whether or not one stops at a failure. -/
theorem applyAll_eq_of_applyAll? {n m : Nfa} {edits : List Edit}
    (made : n.applyAll? edits = some m) : n.applyAll edits = m := by
  induction edits generalizing n with
  | nil => exact Option.some.inj made
  | cons e rest ih =>
    rw [applyAll?] at made
    rw [applyAll]
    split at made
    next after _ result =>
      rw [result]
      exact ih made
    · cases made

theorem Keyed.flatten_of_applyAll? {edits : List Edit} {n : Nfa}
    (made : Nfa.new.applyAll? edits = some n) : (new.applyAll edits).flatten = n := by
  rw [flatten_applyAll, flatten_new]
  exact applyAll_eq_of_applyAll? made

/-- Two lists of the same edges, in whatever order and however often they come, make the same automaton if
every edge can be added. Its edges are those of the lists, each once and in order, and there is one state more
than the largest number on an edge. With the edges filed by source and label every field is the same as
well, and the entries of the map list the edges in this order. -/
theorem edges_determine {es fs : List Edge} {n m : Nfa}
    (first : new.applyAll? (es.map .addEdge) = some n)
    (second : new.applyAll? (fs.map .addEdge) = some m) (same : ∀ e, e ∈ es ↔ e ∈ fs) :
    n = m ∧
    (∃ k l, Keyed.new.applyAll (es.map .addEdge) = k ∧ Keyed.new.applyAll (fs.map .addEdge) = l ∧
      k.Same l ∧ k.flatten = n ∧ k.edges = n.edges.toList) ∧
    (∀ e, e ∈ n.edges.toList ↔ e ∈ es) ∧ n.edges.toList.Nodup ∧
    n.edges.toList.Pairwise Edge.Precedes ∧
    n.numStates = (mentioned es).max?.elim 1 (· + 1) := by
  have left := eq_ofEdges_of_applyAll? first
  have equal : n = m := by
    rw [left, eq_ofEdges_of_applyAll? second]
    exact ofEdges_congr same
  have flat := Keyed.flatten_of_applyAll? first
  refine ⟨equal, ⟨_, _, rfl, rfl, ?_, flat, ?_⟩, fun e => ?_, n.edges.nodup_toList,
    n.pairwise_edges, ?_⟩
  · apply (Keyed.filled_new.applyAll _).same (Keyed.filled_new.applyAll _)
    rw [flat, Keyed.flatten_of_applyAll? second, equal]
  · rw [← Keyed.toList_edges_flatten, flat]
  · rw [left]
    exact mem_edges_ofEdges
  · rw [left, numStates_ofEdges]

/-- Edges in order: a silent one before one with a character, and two with the same character. -/
def inOrder : List Edge :=
  [⟨0, none, 3⟩, ⟨0, some 'a', 1⟩, ⟨0, some 'a', 3⟩, ⟨0, some 'b', 0⟩, ⟨4, none, 2⟩]

/-- The same edges from the last one to the first, some of them more than once. -/
def shuffled : List Edge := ⟨0, some 'a', 3⟩ :: ⟨4, none, 2⟩ :: inOrder.reverse

theorem edges_determine_shuffled : ∃ n m,
    new.applyAll? (shuffled.map .addEdge) = some n ∧ new.applyAll? (inOrder.map .addEdge) = some m ∧
    (∀ e, e ∈ shuffled ↔ e ∈ inOrder) ∧ n = m ∧
    (Keyed.new.applyAll (shuffled.map .addEdge)).Same (Keyed.new.applyAll (inOrder.map .addEdge)) ∧
    (Keyed.new.applyAll (shuffled.map .addEdge)).edges = inOrder ∧
    n.edges.toList.Pairwise Edge.Precedes ∧ n.numStates = 5 := by
  have first : new.applyAll? (shuffled.map .addEdge) = some (ofEdges shuffled.reverse) := rfl
  have second : new.applyAll? (inOrder.map .addEdge) = some (ofEdges inOrder.reverse) := rfl
  have same : ∀ e, e ∈ shuffled ↔ e ∈ inOrder := by grind [shuffled, inOrder]
  obtain ⟨equal, ⟨k, l, rfl, rfl, alike, -, listed⟩, -, -, ascending, size⟩ :=
    edges_determine first second same
  refine ⟨_, _, first, second, same, equal, alike, ?_, ascending, size⟩
  rw [listed]
  decide

end Nfa

end Lexing
