import Lexing.Dfa.Guarded.Subset
import Lexing.Proofs.Dfa.WellFormed
import Lexing.Proofs.Graph.Queue
import Lexing.Proofs.Guarded.Table
import Mathlib.Data.List.Nodup

/- Determinization with a queue makes the automaton of the sets in breadth-first order, and none of its
look-ups fails. The sets that have a state are those that exploration has seen. The empty set is among
them, although it is neither queued nor in the table of numbers. -/

set_option autoImplicit false

namespace Lexing.Dfa

variable {d : Dfa}

namespace Guarded

theorem connect_spec (wf : d.WellFormed) {source target : State} {c : Char}
    (begins : source < d.numStates) (ends : target < d.numStates) (letter : c ∈ d.alphabet) :
    ∃ table, connect d source c target = some { d with table } ∧ WellFormed { d with table } ∧
      ∀ q a, next? { d with table } q a =
        if q = source ∧ a = c then some target else d.next? q a := by
  cases found : d.alphabet.index? c with
  | none => exact absurd letter (SortedSet.index?_eq_none_iff.1 found)
  | some i =>
    have bound := wf.index_lt begins (SortedSet.index?_lt found)
    refine ⟨_, ?_, wf.redirect (source * d.alphabet.size + i) ends, next?_redirect bound found⟩
    rw [connect, found]
    dsimp only
    rw [write?_of_lt bound]
    rfl

/-- The states of an automaton stand for the sets of a list. -/
structure Stands (n : Nfa) (found : List StateSet) (d : Dfa) : Prop where
  wf : d.WellFormed
  alphabet_eq : d.alphabet = n.alphabet
  start_eq : d.start = 0
  accepting_eq : d.accepting = (found.map n.anyAccepting).toArray
  origins_eq : d.origins = found.toArray

namespace Stands

variable {n : Nfa} {found : List StateSet}

theorem numStates_eq (stands : Stands n found d) : d.numStates = found.length := by
  rw [numStates, stands.accepting_eq, List.size_toArray, List.length_map]

theorem new (n : Nfa) : Stands n [∅] (Dfa.new n.alphabet.toList) where
  wf := wellFormed_new _
  alphabet_eq := SortedSet.ext fun _ => SortedSet.mem_ofList
  start_eq := rfl
  accepting_eq := rfl
  origins_eq := rfl

theorem addState (stands : Stands n found d) : Stands n (found ++ [∅]) d.addState where
  wf := stands.wf.addState
  alphabet_eq := stands.alphabet_eq
  start_eq := stands.start_eq
  accepting_eq := by
    rw [Dfa.addState, stands.accepting_eq, List.push_toArray, List.map_append]
    rfl
  origins_eq := by
    rw [Dfa.addState, stands.origins_eq]
    exact List.push_toArray found ∅

theorem describe (stands : Stands n found d) {q : State} (inside : q < found.length)
    (qs : StateSet) : ∃ e, describe n d q qs = some e ∧ Stands n (found.set q qs) e ∧
      ∀ p c, e.next? p c = d.next? p c := by
  have known : q < d.accepting.size := Nat.lt_of_lt_of_eq inside stands.numStates_eq.symm
  have kept : q < d.origins.size := Nat.lt_of_lt_of_eq known stands.wf.origins_size.symm
  unfold Guarded.describe
  rw [write?_of_lt known, write?_of_lt kept]
  refine ⟨_, rfl, ⟨?_, stands.alphabet_eq, stands.start_eq, ?_, ?_⟩, fun p c => rfl⟩
  · have marked := stands.wf.remark q (n.anyAccepting qs)
    refine { marked with origins_size := ?_ }
    rw [Array.size_setIfInBounds, Array.size_setIfInBounds]
    exact stands.wf.origins_size
  · show d.accepting.setIfInBounds q _ = _
    rw [stands.accepting_eq, List.setIfInBounds_toArray, List.map_set]
  · show d.origins.setIfInBounds q _ = _
    rw [stands.origins_eq, List.setIfInBounds_toArray]

/-- A state is made for a set. -/
theorem append (stands : Stands n found d) (qs : StateSet) :
    ∃ e, Guarded.describe n d.addState d.numStates qs = some e ∧ Stands n (found ++ [qs]) e ∧
      ∀ p c, e.next? p c = d.next? p c := by
  have inside : found.length < (found ++ [∅]).length := by simp
  obtain ⟨e, made, described, same⟩ := stands.addState.describe inside qs
  rw [stands.numStates_eq]
  refine ⟨e, made, ?_, fun p c => by rw [same, next?_addState]⟩
  simpa using described

theorem connect (stands : Stands n found d) {source target : State} {c : Char}
    (begins : source < found.length) (ends : target < found.length) (letter : c ∈ n.alphabet) :
    ∃ e, Guarded.connect d source c target = some e ∧ Stands n found e ∧
      ∀ q a, e.next? q a = if q = source ∧ a = c then some target else d.next? q a := by
  rw [← stands.numStates_eq] at begins ends
  rw [← stands.alphabet_eq] at letter
  obtain ⟨table, connected, wf, next⟩ := connect_spec stands.wf begins ends letter
  exact ⟨_, connected,
    ⟨wf, stands.alphabet_eq, stands.start_eq, stands.accepting_eq, stands.origins_eq⟩, next⟩

/-- All characters lead from a state to itself. -/
theorem connect_loops (stands : Stands n found d) {q : State} (inside : q < found.length) :
    ∃ e, n.alphabet.toList.foldlM (fun d c => Guarded.connect d q c q) d = some e ∧
      Stands n found e ∧
      ∀ p a, e.next? p a = if p = q ∧ a ∈ n.alphabet then some q else d.next? p a := by
  refine foldlM_spec (fun done e => Stands n found e ∧
    ∀ p a, e.next? p a = if p = q ∧ a ∈ done then some q else d.next? p a) ?_ ?_
  · exact ⟨stands, fun p a => by simp⟩
  · rintro done c rest e whole ⟨before, next⟩
    have letter : c ∈ n.alphabet := by
      rw [SortedSet.mem_def, whole]
      simp
    obtain ⟨f, connected, after, more⟩ := before.connect inside inside letter
    refine ⟨f, connected, after, fun p a => ?_⟩
    rw [more, next]
    by_cases here : p = q <;> by_cases last : a = c <;> simp [here, last]

end Stands

theorem getElem?_concat_iff {α : Type} {l : List α} {a b : α} {i : Nat} :
    (l ++ [b])[i]? = some a ↔ l[i]? = some a ∨ i = l.length ∧ b = a := by
  rw [List.getElem?_append]
  split
  next inside => simp [Nat.ne_of_lt inside]
  next outside =>
    rw [List.getElem?_eq_none (Nat.not_lt.1 outside), List.getElem?_singleton]
    have place : i - l.length = 0 ↔ i = l.length := by omega
    simp [place]

/-- What holds while sets are found. The sets in `found` have a state, those in `waiting` are yet to
be visited, and `entered` tells which transitions are there. -/
structure Growing (n : Nfa) (found waiting : List StateSet) (entered : StateSet → Char → Prop)
    (g : Growth) : Prop where
  stands : Stands n found g.dfa
  nodup : found.Nodup
  numbers_iff : ∀ (qs : StateSet) q, g.numbers[qs]? = some q ↔ qs ≠ ∅ ∧ found[q]? = some qs
  sink_iff : ∀ q, g.sink = some q ↔ found[q]? = some ∅
  queue_eq : g.queue = waiting.filter (· ≠ ∅)
  entered_found : ∀ qs c, entered qs c → qs ∈ found
  next_eq : ∀ q qs, found[q]? = some qs → ∀ c ∈ n.alphabet, qs = ∅ ∨ entered qs c →
    ∃ p, g.dfa.next? q c = some p ∧ found[p]? = some (n.step qs c)

namespace Growing

variable {n : Nfa} {found waiting : List StateSet} {entered : StateSet → Char → Prop} {g : Growth}
  {seen : Std.TreeSet StateSet}

/-- A new state is made for a set. The state of the empty set has its transitions at once. -/
theorem append (growing : Growing n found waiting entered g) {qs : StateSet} {h : Growth}
    (absent : qs ∉ found) (stands : Stands n (found ++ [qs]) h.dfa)
    (numbers_iff : ∀ (rs : StateSet) q, h.numbers[rs]? = some q ↔ rs ≠ ∅ ∧ (found ++ [qs])[q]? = some rs)
    (sink_iff : ∀ q, h.sink = some q ↔ (found ++ [qs])[q]? = some ∅)
    (queue_eq : h.queue = g.queue ++ [qs].filter (· ≠ ∅))
    (kept : ∀ q < found.length, ∀ c, h.dfa.next? q c = g.dfa.next? q c)
    (loops : qs = ∅ → ∀ c ∈ n.alphabet, h.dfa.next? found.length c = some found.length) :
    Growing n (found ++ [qs]) (waiting ++ [qs]) entered h where
  stands := stands
  nodup := List.nodup_append.2 ⟨growing.nodup, List.nodup_singleton _,
    fun _ old _ new same => absent (List.mem_singleton.1 new ▸ same ▸ old)⟩
  numbers_iff := numbers_iff
  sink_iff := sink_iff
  queue_eq := by rw [queue_eq, growing.queue_eq, List.filter_append]
  entered_found rs c known := List.mem_append_left _ (growing.entered_found rs c known)
  next_eq q rs place c letter known := by
    rcases getElem?_concat_iff.1 place with old | ⟨rfl, rfl⟩
    · obtain ⟨p, moved, target⟩ := growing.next_eq q rs old c letter known
      rw [kept q (List.getElem?_eq_some_iff.1 old).1]
      exact ⟨p, moved, getElem?_concat_iff.2 (.inl target)⟩
    · have empty : qs = ∅ :=
        known.resolve_right fun known => absent (growing.entered_found qs c known)
      subst empty
      rw [Nfa.step_empty]
      exact ⟨found.length, loops rfl c letter, place⟩

/-- Nothing is done for a set that has a state. -/
theorem keep (growing : Growing n found waiting entered g)
    (seen_iff : ∀ qs, qs ∈ seen ↔ qs ∈ found) {qs : StateSet} {q : State}
    (place : found[q]? = some qs) :
    (found ++ Graph.fresh seen [qs])[q]? = some qs ∧
      Growing n (found ++ Graph.fresh seen [qs]) (waiting ++ Graph.fresh seen [qs]) entered g := by
  have old : qs ∈ seen := (seen_iff qs).2 (List.mem_of_getElem? place)
  rw [Graph.fresh_of_seen fun _ mem => List.mem_singleton.1 mem ▸ old, List.append_nil,
    List.append_nil]
  exact ⟨place, growing⟩

/-- The empty set has a state or is given one. -/
theorem sinkState (growing : Growing n found waiting entered g)
    (seen_iff : ∀ qs, qs ∈ seen ↔ qs ∈ found) :
    ∃ q h, g.sinkState n = some (q, h) ∧ (found ++ Graph.fresh seen [∅])[q]? = some ∅ ∧
      Growing n (found ++ Graph.fresh seen [∅]) (waiting ++ Graph.fresh seen [∅]) entered h := by
  unfold Growth.sinkState
  cases known : g.sink with
  | some q =>
    exact ⟨q, g, rfl, growing.keep seen_iff ((growing.sink_iff q).1 known)⟩
  | none =>
    have absent : ∅ ∉ found := by
      intro mem
      obtain ⟨q, place⟩ := List.mem_iff_getElem?.1 mem
      rw [(growing.sink_iff q).2 place] at known
      cases known
    have inside : found.length < (found ++ [(∅ : StateSet)]).length := by simp
    obtain ⟨e, looped, stands, next⟩ := growing.stands.addState.connect_loops inside
    have place : (found ++ [∅])[found.length]? = some (∅ : StateSet) := List.getElem?_concat_length
    rw [Graph.fresh_singleton fun old => absent ((seen_iff ∅).1 old)]
    dsimp only
    rw [growing.stands.numStates_eq, looped]
    refine ⟨found.length, _, rfl, place, growing.append absent stands ?_ ?_ ?_ ?_ ?_⟩
    · intro qs q
      rw [getElem?_concat_iff, growing.numbers_iff]
      refine and_congr_right fun nonempty => ⟨.inl, fun h => h.resolve_right ?_⟩
      exact fun last => nonempty last.2.symm
    · intro q
      rw [getElem?_concat_iff]
      constructor
      · intro same
        exact .inr ⟨(Option.some.inj same).symm, rfl⟩
      · rintro (old | ⟨rfl, _⟩)
        · exact absurd (List.mem_of_getElem? old) absent
        · rfl
    · exact (List.append_nil g.queue).symm
    · intro q below c
      rw [next, if_neg fun here => Nat.ne_of_lt below here.1, next?_addState]
    · intro _ c letter
      rw [next, if_pos ⟨rfl, letter⟩]

/-- A set that is not empty has a state or is given one. -/
theorem setState (growing : Growing n found waiting entered g)
    (seen_iff : ∀ qs, qs ∈ seen ↔ qs ∈ found) {qs : StateSet} (nonempty : qs ≠ ∅) :
    ∃ q h, g.setState n qs = some (q, h) ∧ (found ++ Graph.fresh seen [qs])[q]? = some qs ∧
      Growing n (found ++ Graph.fresh seen [qs]) (waiting ++ Graph.fresh seen [qs]) entered h := by
  unfold Growth.setState
  cases known : g.numbers[qs]? with
  | some q =>
    exact ⟨q, g, rfl, growing.keep seen_iff ((growing.numbers_iff qs q).1 known).2⟩
  | none =>
    have absent : qs ∉ found := by
      intro mem
      obtain ⟨q, place⟩ := List.mem_iff_getElem?.1 mem
      rw [(growing.numbers_iff qs q).2 ⟨nonempty, place⟩] at known
      cases known
    obtain ⟨e, made, stands, next⟩ := growing.stands.append qs
    rw [Graph.fresh_singleton fun old => absent ((seen_iff qs).1 old)]
    dsimp only
    rw [made, growing.stands.numStates_eq]
    refine ⟨found.length, _, rfl, List.getElem?_concat_length, growing.append absent stands ?_ ?_ ?_
      (fun q _ c => next q c) fun empty => absurd empty nonempty⟩
    · intro rs q
      show (g.numbers.insert qs found.length)[rs]? = some q ↔ _
      simp only [getElem?_concat_iff, Std.TreeMap.getElem?_insert,
        Std.LawfulEqCmp.compare_eq_iff_eq]
      by_cases same : qs = rs
      · subst same
        have old : found[q]? ≠ some qs := fun place => absent (List.mem_of_getElem? place)
        simp [nonempty, old, eq_comm]
      · simp [same, growing.numbers_iff]
    · intro q
      rw [getElem?_concat_iff, growing.sink_iff]
      simp [nonempty]
    · simp [nonempty]

theorem stateOf (growing : Growing n found waiting entered g)
    (seen_iff : ∀ qs, qs ∈ seen ↔ qs ∈ found) (qs : StateSet) :
    ∃ q h, g.stateOf n qs = some (q, h) ∧ (found ++ Graph.fresh seen [qs])[q]? = some qs ∧
      Growing n (found ++ Graph.fresh seen [qs]) (waiting ++ Graph.fresh seen [qs]) entered h := by
  unfold Growth.stateOf
  split
  next empty =>
    rw [Nfa.eq_empty_of_isEmpty empty]
    exact growing.sinkState seen_iff
  next nonempty =>
    refine growing.setState seen_iff ?_
    rintro rfl
    exact nonempty rfl

/-- One transition is entered, and its end has a state. -/
theorem follow (growing : Growing n found waiting entered g)
    (seen_iff : ∀ qs, qs ∈ seen ↔ qs ∈ found) {qs : StateSet} {source : State}
    (begins : found[source]? = some qs) {c : Char} (letter : c ∈ n.alphabet) :
    ∃ h, g.follow n qs source c = some h ∧
      Growing n (found ++ Graph.fresh seen [n.step qs c]) (waiting ++ Graph.fresh seen [n.step qs c])
        (fun rs a => entered rs a ∨ rs = qs ∧ a = c) h := by
  obtain ⟨target, h, made, ends, after⟩ := growing.stateOf seen_iff (n.step qs c)
  have below := (List.getElem?_eq_some_iff.1 begins).1
  have begins : (found ++ Graph.fresh seen [n.step qs c])[source]? = some qs := by
    rw [List.getElem?_append_left below, begins]
  obtain ⟨inside, _⟩ := List.getElem?_eq_some_iff.1 begins
  obtain ⟨e, connected, stands, next⟩ :=
    after.stands.connect inside (List.getElem?_eq_some_iff.1 ends).1 letter
  unfold Growth.follow
  rw [made]
  refine ⟨{ h with dfa := e }, ?_, { after with stands, entered_found := ?_, next_eq := ?_ }⟩
  · show (Guarded.connect h.dfa source c target >>= _) = _
    rw [connected]
    rfl
  · rintro rs a (known | ⟨rfl, _⟩)
    · exact after.entered_found rs a known
    · exact List.mem_of_getElem? begins
  · intro q rs place a known old
    show ∃ p, e.next? q a = some p ∧ _
    rw [next]
    split
    next here =>
      obtain ⟨rfl, rfl⟩ := here
      obtain rfl := Option.some.inj (place.symm.trans begins)
      exact ⟨target, rfl, ends⟩
    next other =>
      refine after.next_eq q rs place a known (old.imp_right fun old => old.resolve_right ?_)
      rintro ⟨rfl, rfl⟩
      refine other ⟨?_, rfl⟩
      rw [← idxOf?_eq_some_iff_of_nodup after.nodup] at place begins
      exact Option.some.inj (place.symm.trans begins)

/-- All transitions from a set that is not empty are entered. -/
theorem visit (growing : Growing n found waiting entered g)
    (seen_iff : ∀ qs, qs ∈ seen ↔ qs ∈ found) {qs : StateSet} (nonempty : qs ≠ ∅)
    (mem : qs ∈ found) :
    ∃ h, g.visit n qs = some h ∧
      Growing n (found ++ Graph.fresh seen (n.powerset.next qs))
        (waiting ++ Graph.fresh seen (n.powerset.next qs)) (fun rs a => entered rs a ∨ rs = qs) h := by
  obtain ⟨source, begins⟩ := List.mem_iff_getElem?.1 mem
  unfold Growth.visit
  rw [(growing.numbers_iff qs source).2 ⟨nonempty, begins⟩, Nfa.next_powerset]
  have loop : ∃ h, n.alphabet.toList.foldlM (Growth.follow n qs source) g = some h ∧
      Growing n (found ++ Graph.fresh seen (n.alphabet.toList.map (n.step qs)))
        (waiting ++ Graph.fresh seen (n.alphabet.toList.map (n.step qs)))
        (fun rs a => entered rs a ∨ rs = qs ∧ a ∈ n.alphabet.toList) h := by
    refine foldlM_spec (fun done h =>
      Growing n (found ++ Graph.fresh seen (done.map (n.step qs)))
        (waiting ++ Graph.fresh seen (done.map (n.step qs)))
        (fun rs a => entered rs a ∨ rs = qs ∧ a ∈ done) h) ?_ ?_
    · simpa [Graph.fresh] using growing
    · intro done c rest h whole before
      have letter : c ∈ n.alphabet := by
        rw [SortedSet.mem_def, whole]
        simp
      have noted (rs : StateSet) : rs ∈ Graph.note seen (Graph.fresh seen (done.map (n.step qs))) ↔
          rs ∈ found ++ Graph.fresh seen (done.map (n.step qs)) := by
        rw [Graph.mem_note, seen_iff, List.mem_append]
      obtain ⟨k, followed, after⟩ := before.follow noted
        (by rw [List.getElem?_append_left (List.getElem?_eq_some_iff.1 begins).1, begins]) letter
      refine ⟨k, followed, ?_⟩
      rw [List.map_append, List.map_singleton, Graph.fresh_append, ← List.append_assoc,
        ← List.append_assoc]
      simpa [or_assoc, and_or_left] using after
  obtain ⟨h, looped, after⟩ := loop
  refine ⟨h, looped, { after with entered_found := ?_, next_eq := ?_ }⟩
  · rintro rs a (known | rfl)
    · exact List.mem_append_left _ (growing.entered_found rs a known)
    · exact List.mem_append_left _ mem
  · intro q rs place c letter known
    exact after.next_eq q rs place c letter (known.imp_right (Or.imp_right (⟨·, letter⟩)))

end Growing

/-- What holds whenever a set is taken from the queue: the sets that were taken have their
transitions. -/
structure Running (n : Nfa) (done waiting : List StateSet) (seen : Std.TreeSet StateSet) (g : Growth) :
    Prop where
  growing : Growing n (done ++ waiting) waiting (fun qs _ => qs ∈ done) g
  queued : Graph.Queued n.powerset [n.initial] done waiting seen

namespace Running

variable {n : Nfa} {done waiting : List StateSet} {seen : Std.TreeSet StateSet} {g : Growth}

/-- The empty set leads to nothing new, so it need not wait. -/
theorem skip (running : Running n done (∅ :: waiting) seen g) :
    Running n (done ++ [∅]) waiting seen g where
  growing := by
    have growing := running.growing
    rw [List.append_cons] at growing
    refine { growing with queue_eq := ?_, entered_found := ?_, next_eq := ?_ }
    · rw [growing.queue_eq, List.filter_cons_of_neg (by simp)]
    · exact fun qs _ mem => List.mem_append_left _ mem
    · intro q qs place c letter known
      refine growing.next_eq q qs place c letter (known.elim .inl fun mem => ?_)
      rcases List.mem_append.1 mem with old | empty
      · exact .inr old
      · exact .inl (List.mem_singleton.1 empty)
  queued := by
    have empty : ∅ ∈ seen := (running.queued.seen_iff ∅).2 (by simp)
    have nothing : Graph.fresh seen (n.powerset.next ∅) = [] := by
      refine Graph.fresh_of_seen fun qs mem => ?_
      rw [Nfa.next_powerset] at mem
      obtain ⟨c, _, rfl⟩ := List.mem_map.1 mem
      rw [Nfa.step_empty]
      exact empty
    have queued := running.queued.step
    rw [nothing, List.append_nil] at queued
    exact queued

theorem advance (running : Running n done waiting seen g) :
    ∃ before after, Running n before after seen g ∧ ∀ qs ∈ after.head?, qs ≠ ∅ := by
  induction waiting generalizing done with
  | nil => exact ⟨done, [], running, by simp⟩
  | cons qs rest ih =>
    by_cases empty : qs = ∅
    · subst empty
      exact ih running.skip
    · exact ⟨done, qs :: rest, running, by simpa using empty⟩

theorem emptied (running : Running n done waiting seen g) (queue : g.queue = []) :
    ∃ before, Running n before [] seen g := by
  obtain ⟨before, after, here, head⟩ := running.advance
  cases after with
  | nil => exact ⟨before, here⟩
  | cons qs after =>
    rw [here.growing.queue_eq, List.filter_cons_of_pos (by simpa using head)] at queue
    cases queue

theorem taken (running : Running n done waiting seen g) {qs : StateSet} {rest : List StateSet}
    (queue : g.queue = qs :: rest) : ∃ before after, qs ≠ ∅ ∧ rest = after.filter (· ≠ ∅) ∧
      Running n before (qs :: after) seen g := by
  obtain ⟨before, after, here, head⟩ := running.advance
  rw [here.growing.queue_eq] at queue
  cases after with
  | nil => cases queue
  | cons rs after =>
    rw [List.filter_cons_of_pos (by simpa using head)] at queue
    obtain ⟨rfl, rfl⟩ := List.cons.inj queue
    exact ⟨before, after, head rs rfl, rfl, here⟩

theorem visit {qs : StateSet} (running : Running n done (qs :: waiting) seen g) (nonempty : qs ≠ ∅) :
    ∃ h, Growth.visit n { g with queue := waiting.filter (· ≠ ∅) } qs = some h ∧
      Running n (done ++ [qs]) (waiting ++ Graph.fresh seen (n.powerset.next qs))
        (Graph.note seen (Graph.fresh seen (n.powerset.next qs))) h := by
  have growing : Growing n (done ++ qs :: waiting) waiting (fun rs _ => rs ∈ done)
      { g with queue := waiting.filter (· ≠ ∅) } := { running.growing with queue_eq := rfl }
  obtain ⟨h, visited, after⟩ := growing.visit running.queued.seen_iff nonempty (by simp)
  refine ⟨h, visited, ?_, running.queued.step⟩
  simpa using after

end Running

/-- Once all sets have their transitions, the automaton is determined. -/
theorem Growing.dfa_eq {n : Nfa} {g : Growth}
    (growing : Growing n n.subsets [] (fun qs _ => qs ∈ n.subsets) g) : g.dfa = n.determinize := by
  have stands := growing.stands
  have next (q : State) (c : Char) : g.dfa.next? q c = n.determinize.next? q c := by
    rw [n.next?_determinize]
    split
    next letter =>
      cases place : n.subsets[q]? with
      | none =>
        refine Option.eq_none_iff_forall_ne_some.2 fun p moved => ?_
        have inside := Nat.lt_of_lt_of_eq (stands.wf.lt_of_next? moved) stands.numStates_eq
        rw [List.getElem?_eq_getElem inside] at place
        cases place
      | some qs =>
        obtain ⟨p, moved, stepped⟩ :=
          growing.next_eq q qs place c letter (.inr (List.mem_of_getElem? place))
        rw [moved, Option.bind_some, (idxOf?_eq_some_iff_of_nodup n.nodup_subsets).2 stepped]
    next unknown => rw [next?_eq_none_of_not_mem (stands.alphabet_eq ▸ unknown)]
  have coincide : Coincide g.dfa n.determinize := {
    alphabet_eq := stands.alphabet_eq
    numStates_eq := stands.numStates_eq.trans n.numStates_determinize.symm
    start_eq := stands.start_eq
    isAccepting_eq := fun q => by
      rw [isAccepting, stands.accepting_eq]
      rfl
    next?_eq := next }
  have bare := coincide.bare_eq stands.wf n.wellFormed_determinize
  calc g.dfa = { g.dfa.bare with origins := g.dfa.origins } := rfl
    _ = { n.determinize.bare with origins := n.determinize.origins } := by
      rw [bare, stands.origins_eq]
      rfl

theorem drain_eq {n : Nfa} {done waiting : List StateSet} {seen : Std.TreeSet StateSet} {g : Growth}
    (running : Running n done waiting seen g) : g.drain n = some n.determinize := by
  fun_induction Growth.drain n g generalizing done waiting seen with
  | case1 dfa numbers sink =>
    obtain ⟨before, last⟩ := running.emptied rfl
    have growing := last.growing
    rw [List.append_nil, ← last.queued.explore_eq] at growing
    exact congrArg some growing.dfa_eq
  | case2 dfa numbers qs rest sink failed =>
    obtain ⟨before, waiting, nonempty, rfl, here⟩ := running.taken rfl
    obtain ⟨h, visited, _⟩ := here.visit nonempty
    rw [failed] at visited
    cases visited
  | case3 dfa numbers qs rest sink after visited ih =>
    obtain ⟨before, waiting, nonempty, rfl, here⟩ := running.taken rfl
    obtain ⟨h, same, next⟩ := here.visit nonempty
    rw [visited] at same
    cases same
    exact ih next

/-- The search with a queue finds the sets in breadth-first order, and none of its steps fails. -/
theorem determinize_eq (n : Nfa) : determinize n = some n.determinize := by
  obtain ⟨dfa, described, stands, _⟩ := (Stands.new n).describe Nat.one_pos n.initial
  unfold determinize
  dsimp only
  rw [show (Dfa.new n.alphabet.toList).start = 0 from rfl, described]
  have queued := Graph.queued_start n.powerset [n.initial]
  rw [Graph.fresh_singleton Std.TreeSet.not_mem_emptyc] at queued
  have nonempty := n.initial_ne_empty
  refine drain_eq ⟨?_, queued⟩
  refine ⟨stands, List.nodup_singleton _, fun qs q => ?_, fun q => ?_, ?_, ?_, fun q qs place => ?_⟩
  · show ((∅ : Std.TreeMap StateSet State).insert n.initial 0)[qs]? = some q ↔ _
    simp only [Std.TreeMap.getElem?_insert, Std.LawfulEqCmp.compare_eq_iff_eq]
    by_cases same : n.initial = qs
    · subst same
      simp [nonempty, List.getElem?_singleton, eq_comm]
    · simp [same, List.getElem?_singleton]
  · simp [nonempty, List.getElem?_singleton]
  · simp [nonempty]
  · simp
  · obtain rfl : qs = n.initial := by simpa using List.mem_of_getElem? place
    simp [nonempty]

end Guarded

end Lexing.Dfa
