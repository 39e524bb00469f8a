import Lexing.Dfa.Basic
import Lexing.Dfa.Guarded.Table
import Lexing.Proofs.Dfa.Run
import Lexing.Proofs.Dfa.WellFormed
import Lexing.Proofs.Guarded.Table

/- The search with a queue finds the live states, and none of its look-ups fails. A state is marked when
it is queued, and the sources of all marked states that have left the queue are marked. So a mark says
exactly that some word leads from the state to acceptance. -/

set_option autoImplicit false

namespace Lexing.Dfa

variable {d : Dfa}

namespace Guarded

def Listed (lists : Array (List State)) (q p : State) : Prop := ∃ l, lists[q]? = some l ∧ p ∈ l

/-- One transition is entered into the lists. -/
theorem list_spec {lists : Array (List State)} {target : State} (source : State)
    (inside : target < lists.size) :
    ∃ after, (lists[target]?.bind fun known => write? lists target (known ++ [source])) =
        some after ∧ after.size = lists.size ∧
      ∀ q p, Listed after q p ↔ Listed lists q p ∨ q = target ∧ p = source := by
  rw [Array.getElem?_eq_getElem inside, Option.bind_some, write?_of_lt inside]
  refine ⟨_, rfl, Array.size_setIfInBounds, fun q p => ?_⟩
  unfold Listed
  rw [Array.getElem?_setIfInBounds]
  by_cases same : target = q
  · subst same
    simp [inside]
  · simp [same, Ne.symm same]

theorem sources_spec (wf : d.WellFormed) : ∃ lists, sources d = some lists ∧
    lists.size = d.numStates ∧ ∀ q p, Listed lists q p ↔ p ∈ d.backwards.next q := by
  have loop : ∃ lists, sources d = some lists ∧
      lists.size = d.numStates ∧ ∀ q p, Listed lists q p ↔ ∃ c, (p, c, q) ∈ d.transitions := by
    unfold sources
    rw [transitions_eq wf]
    refine foldlM_spec (fun done lists => lists.size = d.numStates ∧
      ∀ q p, Listed lists q p ↔ ∃ c, (p, c, q) ∈ done) ⟨Array.size_replicate, fun q p => ?_⟩ ?_
    · simp [Listed, Array.getElem?_replicate]
    · rintro done ⟨source, c, target⟩ rest lists whole ⟨size, listed⟩
      have next : d.next? source c = some target := by
        rw [← mem_transitions_iff, whole]
        simp
      obtain ⟨after, written, sizes, more⟩ :=
        list_spec source (size.symm ▸ wf.next?_lt next : target < lists.size)
      refine ⟨after, written, sizes.trans size, fun q p => ?_⟩
      rw [more, listed]
      constructor
      · rintro (⟨letter, mem⟩ | ⟨rfl, rfl⟩)
        · exact ⟨letter, List.mem_append_left _ mem⟩
        · exact ⟨c, by simp⟩
      · rintro ⟨letter, mem⟩
        rcases List.mem_append.1 mem with old | new
        · exact .inl ⟨letter, old⟩
        · cases List.mem_singleton.1 new
          exact .inr ⟨rfl, rfl⟩
  simpa only [mem_next_backwards] using loop

namespace Search

def IsMarked (s : Search) (q : State) : Prop := s.marked[q]? = some true

theorem IsMarked.lt {s : Search} {q : State} (marked : s.IsMarked q) : q < s.marked.size :=
  (Array.getElem?_eq_some_iff.1 marked).1

theorem mark_spec {s : Search} {q : State} (inside : q < s.marked.size) :
    ∃ t, s.mark q = some t ∧ t.marked.size = s.marked.size ∧
      (∀ p, t.IsMarked p ↔ s.IsMarked p ∨ p = q) ∧
      ∀ p, p ∈ t.queue ↔ p ∈ s.queue ∨ p = q ∧ ¬ s.IsMarked q := by
  unfold mark IsMarked
  rw [Array.getElem?_eq_getElem inside]
  cases known : s.marked[q] with
  | true =>
    refine ⟨s, rfl, rfl, fun p => ⟨.inl, ?_⟩, fun p => ⟨.inl, ?_⟩⟩
    · rintro (marked | rfl)
      · exact marked
      · rw [Array.getElem?_eq_getElem inside, known]
    · rintro (queued | ⟨_, unmarked⟩)
      · exact queued
      · exact absurd rfl unmarked
  | false =>
    dsimp only
    rw [write?_of_lt inside]
    refine ⟨_, rfl, Array.size_setIfInBounds, fun p => ?_, fun p => ?_⟩
    · dsimp only
      rw [Array.getElem?_setIfInBounds]
      by_cases same : q = p
      · subst same
        simp [inside]
      · simp [same, Ne.symm same]
    · simp

theorem foldlM_mark_spec {s : Search} {l : List State} (inside : ∀ q ∈ l, q < s.marked.size) :
    ∃ t, l.foldlM mark s = some t ∧ t.marked.size = s.marked.size ∧
      (∀ p, t.IsMarked p ↔ s.IsMarked p ∨ p ∈ l) ∧
      ∀ p, p ∈ t.queue ↔ p ∈ s.queue ∨ p ∈ l ∧ ¬ s.IsMarked p := by
  refine foldlM_spec (fun done (t : Search) => t.marked.size = s.marked.size ∧
    (∀ p, t.IsMarked p ↔ s.IsMarked p ∨ p ∈ done) ∧
    ∀ p, p ∈ t.queue ↔ p ∈ s.queue ∨ p ∈ done ∧ ¬ s.IsMarked p) ?_ ?_
  · simp
  · rintro done q rest t rfl ⟨size, marked, queued⟩
    have bound : q < t.marked.size := size.symm ▸ inside q (by simp)
    obtain ⟨u, step, sizes, more, later⟩ := mark_spec bound
    refine ⟨u, step, sizes.trans size, fun p => ?_, fun p => ?_⟩
    · rw [more, marked, List.mem_append, List.mem_singleton, or_assoc]
    · rw [later, queued, marked, List.mem_append, List.mem_singleton]
      by_cases same : p = q
      · subst same
        tauto
      · simp [same]

/-- What holds whenever a state is taken from the queue. -/
structure Running (d : Dfa) (s : Search) : Prop where
  size_eq : s.marked.size = d.numStates
  reached : ∀ q, s.IsMarked q → d.backwards.Reachable d.acceptingStates q
  root_marked : ∀ q ∈ d.acceptingStates, s.IsMarked q
  queue_marked : ∀ q ∈ s.queue, s.IsMarked q
  closed : ∀ q, s.IsMarked q → q ∉ s.queue → ∀ p ∈ d.backwards.next q, s.IsMarked p

theorem Running.visit {marked : Array Bool} {q : State} {rest : List State}
    {lists : Array (List State)} (wf : d.WellFormed) (size : lists.size = d.numStates)
    (listed : ∀ q p, Listed lists q p ↔ p ∈ d.backwards.next q)
    (running : Running d ⟨marked, q :: rest⟩) :
    ∃ t, visit lists ⟨marked, rest⟩ q = some t ∧ Running d t := by
  have here : IsMarked ⟨marked, rest⟩ q := running.queue_marked q List.mem_cons_self
  have bound : q < lists.size := by
    rw [size, ← running.size_eq]
    exact here.lt
  have known := Array.getElem?_eq_getElem bound
  have member : ∀ p, p ∈ lists[q] ↔ p ∈ d.backwards.next q := by
    intro p
    rw [← listed, Listed, known]
    simp
  have inside : ∀ p ∈ lists[q], p < marked.size := by
    intro p mem
    obtain ⟨c, transition⟩ := mem_next_backwards.1 ((member p).1 mem)
    rw [running.size_eq]
    exact wf.lt_of_next? (mem_transitions_iff.1 transition)
  obtain ⟨t, looped, sizes, more, later⟩ := foldlM_mark_spec (s := ⟨marked, rest⟩) inside
  refine ⟨t, ?_, ?_⟩
  · unfold Search.visit
    rw [known]
    exact looped
  · refine ⟨sizes.trans running.size_eq, fun p h => ?_, fun p mem => ?_, fun p mem => ?_,
      fun p h absent r edge => ?_⟩
    · rcases (more p).1 h with old | new
      · exact running.reached p old
      · exact (running.reached q here).step ((member p).1 new)
    · exact (more p).2 (.inl (running.root_marked p mem))
    · rcases (later p).1 mem with old | ⟨new, _⟩
      · exact (more p).2 (.inl (running.queue_marked p (List.mem_cons_of_mem q old)))
      · exact (more p).2 (.inr new)
    · by_cases same : p = q
      · subst same
        exact (more r).2 (.inr ((member r).2 edge))
      · have old : IsMarked ⟨marked, rest⟩ p := by
          refine Classical.byContradiction fun unmarked => absent ((later p).2 (.inr ⟨?_, unmarked⟩))
          exact ((more p).1 h).resolve_left unmarked
        have left : p ∉ q :: rest := by
          rw [List.mem_cons, not_or]
          exact ⟨same, fun waiting => absent ((later p).2 (.inl waiting))⟩
        exact (more r).2 (.inl (running.closed p old left r edge))

/-- Once the queue is empty, the marked states are those that can be reached. -/
theorem Running.isMarked_iff {marked : Array Bool} (running : Running d ⟨marked, []⟩) {q : State} :
    marked[q]? = some true ↔ d.backwards.Reachable d.acceptingStates q := by
  constructor
  · exact running.reached q
  · intro walk
    induction walk with
    | root mem => exact running.root_marked _ mem
    | step _ edge ih => exact running.closed _ ih List.not_mem_nil _ edge

theorem drain_spec {lists : Array (List State)} (wf : d.WellFormed)
    (size : lists.size = d.numStates)
    (listed : ∀ q p, Listed lists q p ↔ p ∈ d.backwards.next q) {s : Search}
    (running : Running d s) :
    ∃ live, drain lists s = some live ∧ live.size = d.numStates ∧
      ∀ q, live[q]? = some true ↔ d.backwards.Reachable d.acceptingStates q := by
  fun_induction drain lists s with
  | case1 marked => exact ⟨marked, rfl, running.size_eq, fun q => running.isMarked_iff⟩
  | case2 marked q rest failed =>
    obtain ⟨t, visited, _⟩ := running.visit wf size listed
    rw [failed] at visited
    cases visited
  | case3 marked q rest after visited ih =>
    obtain ⟨t, same, next⟩ := running.visit wf size listed
    rw [visited] at same
    cases same
    exact ih next

theorem running_start (queue : List State) (accepting : ∀ q, q ∈ queue ↔ q ∈ d.acceptingStates) :
    Running d ⟨d.accepting, queue⟩ := by
  have marked : ∀ q, IsMarked ⟨d.accepting, queue⟩ q ↔ q ∈ d.acceptingStates := by
    intro q
    unfold IsMarked
    rw [mem_acceptingStates_iff]
    by_cases inside : q < d.numStates
    · rw [getElem?_accepting inside]
      simp [inside]
    · rw [Array.getElem?_eq_none (Nat.le_of_not_lt inside)]
      simp [inside]
  refine ⟨rfl, fun q h => .root ((marked q).1 h), fun q => (marked q).2, fun q mem => ?_,
    fun q h absent => ?_⟩
  · exact (marked q).2 ((accepting q).1 mem)
  · exact absurd ((accepting q).2 ((marked q).1 h)) absent

end Search

theorem filterM_accepting (d : Dfa) :
    ((List.range d.numStates).filterM fun q => d.accepting[q]?) = some d.acceptingStates :=
  filterM_eq_some_filter fun _ mem => getElem?_accepting (List.mem_range.1 mem)

theorem live_eq (wf : d.WellFormed) : live d = some d.live := by
  obtain ⟨lists, found, size, listed⟩ := sources_spec wf
  obtain ⟨marked, drained, length, marks⟩ :=
    Search.drain_spec wf size listed (Search.running_start d.acceptingStates fun _ => Iff.rfl)
  unfold live
  rw [found, filterM_accepting]
  show Search.drain lists _ = _
  rw [drained, Option.some_inj]
  refine Array.ext (by simp [length, Dfa.live]) fun q left right => ?_
  have inside : q < d.numStates := length ▸ left
  have entry : marked[q] = true ↔ d.backwards.Reachable d.acceptingStates q := by
    rw [← marks, Array.getElem?_eq_getElem left, Option.some_inj]
  rw [Bool.eq_iff_iff, entry, ← Graph.mem_explore]
  simp [Dfa.live]

end Guarded

/-- The search for live states does not fail and gives each state a mark, also where transitions are
missing. It is true exactly for the states from which the run of some word is defined throughout and ends
in acceptance. -/
theorem live_iff_exists_word (wf : d.WellFormed) :
    Guarded.live d = some d.live ∧ d.live.size = d.numStates ∧
    ∀ q, d.live[q]? = some true ↔
      ∃ w p, (∀ c ∈ w, c ∈ d.alphabet) ∧ d.run? q w = some p ∧ d.isAccepting p = true := by
  refine ⟨Guarded.live_eq wf, by simp [live], fun q => ?_⟩
  rw [getElem?_live_iff wf]
  constructor
  · rintro ⟨w, accepted⟩
    obtain ⟨p, run, accepting⟩ := Option.map_eq_some_iff.1 accepted
    exact ⟨w, p, mem_alphabet_of_run? run, run, accepting⟩
  · rintro ⟨w, p, -, run, accepting⟩
    exact ⟨w, by rw [outcome, run, Option.map_some, accepting]⟩

/-- The state 1 has a loop on the way to the accepting state 2, which has no transitions, and the state 3
only leads to itself. -/
def trap : Dfa :=
  (new ['a', 'b']).applyAll [.addState, .addState, .addState, .addTransition 0 'a' 1,
    .addTransition 0 'b' 3, .addTransition 1 'a' 1, .addTransition 1 'b' 2, .addTransition 3 'a' 3,
    .setAccepting 2 true]

theorem live_iff_exists_word_trap : trap.WellFormed ∧ Guarded.live trap = some trap.live ∧
    trap.live.size = trap.numStates ∧ trap.live[0]? = some true ∧
    ¬ ∃ w p, (∀ c ∈ w, c ∈ trap.alphabet) ∧ trap.run? 3 w = some p ∧ trap.isAccepting p = true := by
  have wf : trap.WellFormed := ((Built.new _).applyAll _).wellFormed
  obtain ⟨searched, size, marks⟩ := live_iff_exists_word wf
  have run : trap.run? 0 ['a', 'a', 'b'] = some 2 := by decide
  have dead : trap.live[3]? = some false := by cbv
  refine ⟨wf, searched, size, ?_, fun word => ?_⟩
  · exact (marks 0).2 ⟨_, 2, mem_alphabet_of_run? run, run, by decide⟩
  · have alive := (marks 3).2 word
    rw [dead] at alive
    cases alive

end Lexing.Dfa
