import Lexing.Proofs.Nfa.Paths

set_option autoImplicit false

namespace Lexing.Nfa

section Least

variable {n : Nfa} {qs ps : List State} {set : StateSet} {q : State}

theorem mem_closure_of_mem (mem : q ∈ qs) : q ∈ n.closure qs :=
  mem_closure_iff_path.2 ⟨q, mem, .here q⟩

/-- Every set that silent edges do not leave holds the closure of what is in it. -/
theorem SilentClosed.mem_of_mem_closure (closed : n.SilentClosed set)
    (inside : ∀ p ∈ qs, p ∈ set) (mem : q ∈ n.closure qs) : q ∈ set := by
  obtain ⟨p, root, path⟩ := mem_closure_iff_path.1 mem
  exact closed.mem_of_path (inside p root) path

/-- A set that silent edges do not leave is its own closure. -/
theorem SilentClosed.closure_eq (closed : n.SilentClosed set) : n.closure set.toList = set := by
  apply SortedSet.ext
  intro q
  constructor
  · exact closed.mem_of_mem_closure fun _ mem => mem
  · exact mem_closure_of_mem

theorem closure_congr (same : ∀ q, q ∈ ps ↔ q ∈ qs) : n.closure ps = n.closure qs := by
  apply SortedSet.ext
  intro q
  simp only [mem_closure_iff_path, same]

theorem closure_append (n : Nfa) (qs ps : List State) :
    n.closure (qs ++ ps) = n.closure qs ∪ n.closure ps := by
  apply SortedSet.ext
  intro q
  simp only [SortedSet.mem_union, mem_closure_iff_path, List.mem_append, or_and_right, exists_or]

end Least

namespace Keyed

theorem nodup_targets (k : Keyed) (q : State) (label : Label) : (k.targets q label).Nodup := by
  rw [targets]
  split
  · exact List.nodup_nil
  · exact SortedSet.nodup_toList _

/-- The targets of a state are the ends of different edges. -/
theorem length_targets_le (k : Keyed) (p : State) :
    (k.targets p none).length ≤ k.flatten.silentPairs.countP (·.1 = p) := by
  rw [List.countP_eq_length_filter, ← List.length_map (Prod.mk p)]
  apply List.Nodup.length_le_of_subset
  · exact List.Pairwise.map (Prod.mk p) (fun _ _ apart same => apart (congrArg Prod.snd same))
      (k.nodup_targets p none)
  · intro pair mem
    obtain ⟨q, target, rfl⟩ := List.mem_map.1 mem
    have edge := mem_targets_iff_flatten.1 target
    exact List.mem_filter.2 ⟨mem_silentPairs.2 edge, decide_eq_true rfl⟩

/-- The stack is empty after one turn for each root and each silent edge. -/
theorem iterate_turn_silent {k : Keyed} {qs : List State} {turns : Nat}
    (enough : qs.length + k.flatten.silentPairs.length ≤ turns) :
    k.silent.turn^[turns] (∅, qs.reverse) = (k.closure qs, []) := by
  apply Graph.iterate_turn k.length_targets_le
  have atMost := List.countP_le_length (p := (·.1 ∉ (∅ : StateSet))) (l := k.flatten.silentPairs)
  rw [Graph.turnsLeft, List.length_reverse]
  omega

end Keyed

/-- The loop over the stack ends after at most one turn for each state that it begins with and each silent
edge. It finds exactly the states that these edges lead to, so its result is the least set that holds
the first states and that no silent edge leaves: their order and their repetition make no difference, a
second closure adds nothing, and a union is closed by the union of the closures. -/
theorem closure_least {edits : List Edit} {n : Nfa} {k : Keyed} (made : new.applyAll edits = n)
    (filed : Keyed.new.applyAll edits = k) (qs : List State) :
    (∀ turns, qs.length + n.silentPairs.length ≤ turns →
      k.silent.turn^[turns] (∅, qs.reverse) = (k.closure qs, [])) ∧
    (∀ q, q ∈ k.closure qs ↔ ∃ p ∈ qs, n.Path p [] q) ∧
    (∀ ps, (∀ q, q ∈ ps ↔ q ∈ qs) → k.closure ps = k.closure qs) ∧
    (∀ q ∈ qs, q ∈ k.closure qs) ∧ n.SilentClosed (k.closure qs) ∧
    (∀ set, (∀ q ∈ qs, q ∈ set) → n.SilentClosed set → ∀ q ∈ k.closure qs, q ∈ set) ∧
    k.closure (k.closure qs).toList = k.closure qs ∧
    (∀ ps, k.closure (qs ++ ps) = k.closure qs ∪ k.closure ps) ∧
    k.closure qs = n.closure qs := by
  have flat : k.flatten = n := by
    rw [← filed, Keyed.flatten_applyAll, Keyed.flatten_new, made]
  have found : ∀ rs, k.closure rs = n.closure rs := by
    intro rs
    rw [← flat]
    exact (Keyed.closure_flatten fun _ => Iff.rfl).symm
  have ends : ∀ turns, qs.length + n.silentPairs.length ≤ turns →
      k.silent.turn^[turns] (∅, qs.reverse) = (k.closure qs, []) := by
    intro turns enough
    rw [← flat] at enough
    exact Keyed.iterate_turn_silent enough
  refine ⟨ends, ?_⟩
  -- Both forms close sets alike, so that the rest is about edges in one set.
  simp only [found]
  have closed := n.silentClosed_closure qs
  exact ⟨fun q => mem_closure_iff_path, fun ps => closure_congr, fun q => mem_closure_of_mem, closed,
    fun set inside apart q => apart.mem_of_mem_closure inside, closed.closure_eq,
    n.closure_append qs, trivial⟩

/-- A silent cycle and a silent loop, entered at a state that is named twice and beside one that does not
exist. Of the other states only that on the cycle is found. -/
theorem closure_least_loops : ∃ n k, new.applyAll loops = n ∧ Keyed.new.applyAll loops = k ∧
    [1, 7, 1].length + n.silentPairs.length ≤ 6 ∧
    k.silent.turn^[6] (∅, [1, 7, 1]) = (k.closure [1, 7, 1], []) ∧
    n.Path 1 [] 0 ∧ 0 ∈ k.closure [1, 7, 1] ∧ 7 ∈ k.closure [1, 7, 1] ∧
    n.SilentClosed (.ofList [0, 1, 7]) ∧ (∀ q ∈ k.closure [1, 7, 1], q ∈ [0, 1, 7]) ∧
    k.closure [7, 1] = k.closure [1, 7, 1] ∧
    k.closure ([1, 7, 1] ++ [2]) = k.closure [1, 7, 1] ∪ k.closure [2] := by
  have few : [1, 7, 1].length + (new.applyAll loops).silentPairs.length ≤ 6 := by decide
  have path : (new.applyAll loops).Path 1 [] 0 := .silent (by decide) (.here 0)
  have inside : ∀ e ∈ (new.applyAll loops).edges.toList, e.label = none → e.target ∈ [0, 1, 7] := by
    decide
  have roots : ∀ p ∈ [1, 7, 1], p ∈ (.ofList [0, 1, 7] : StateSet) := by
    intro p root
    apply SortedSet.mem_ofList.2
    grind
  have closed : (new.applyAll loops).SilentClosed (.ofList [0, 1, 7]) := by
    intro p _ q edge
    exact SortedSet.mem_ofList.2 (inside _ edge rfl)
  obtain ⟨ends, found, unordered, contains, -, least, -, union, -⟩ :=
    closure_least (rfl : _ = new.applyAll loops) (rfl : _ = Keyed.new.applyAll loops) [1, 7, 1]
  refine ⟨_, _, rfl, rfl, few, ends 6 few, path, (found 0).2 ⟨1, by decide, path⟩,
    contains 7 (by decide), closed, fun q mem => ?_, unordered [7, 1] fun q => ?_, union [2]⟩
  · exact SortedSet.mem_ofList.1 (least _ roots closed q mem)
  · grind

end Lexing.Nfa
