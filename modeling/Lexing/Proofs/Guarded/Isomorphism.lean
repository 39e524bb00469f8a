import Lexing.Dfa.Guarded.Isomorphism
import Lexing.Proofs.Dfa.Isomorphism
import Lexing.Proofs.Guarded.Table

/- The comparison with a queue decides whether the pairs of states that words lead to are a renaming, and
none of its look-ups fails. The two maps are always inverse to each other and only make partners of
states that one word leads to; it ends early only at such a pair that no renaming can have. -/

set_option autoImplicit false

namespace Lexing.Dfa.Guarded

variable {a b : Dfa}

namespace Pairing

def Linked (s : Pairing) (p q : State) : Prop := s.forward[p]? = some (some q)

/-- The maps fit the automata and each other, and one word leads to both of two partners. -/
structure Sound (a b : Dfa) (s : Pairing) : Prop where
  forward_size : s.forward.size = a.numStates
  backward_size : s.backward.size = b.numStates
  inverse : ∀ p q, s.Linked p q ↔ s.backward[q]? = some (some p)
  paired : ∀ p q, s.Linked p q → Paired a b p q

/-- How the maps and the queue may change: partners stay partners, and new ones are queued. -/
structure Extends (a b : Dfa) (s t : Pairing) : Prop where
  sound : Sound a b t
  linked : ∀ p q, s.Linked p q → t.Linked p q
  queued : ∀ pair ∈ s.queue, pair ∈ t.queue
  new_queued : ∀ p q, t.Linked p q → s.Linked p q ∨ (p, q) ∈ t.queue
  queue_linked : ∀ pair ∈ t.queue, pair ∈ s.queue ∨ t.Linked pair.1 pair.2

theorem Sound.extends_self {s : Pairing} (sound : Sound a b s) : Extends a b s s :=
  ⟨sound, fun _ _ => id, fun _ => id, fun _ _ => .inl, fun _ => .inl⟩

theorem Extends.trans {s t u : Pairing} (first : Extends a b s t) (second : Extends a b t u) :
    Extends a b s u where
  sound := second.sound
  linked p q h := second.linked p q (first.linked p q h)
  queued pair mem := second.queued pair (first.queued pair mem)
  new_queued p q h := by
    rcases second.new_queued p q h with old | new
    · exact (first.new_queued p q old).imp_right (second.queued _)
    · exact .inr new
  queue_linked pair mem := by
    rcases second.queue_linked pair mem with old | new
    · exact (first.queue_linked pair old).imp_right (second.linked _ _)
    · exact .inr new

/-- Two free states become partners. -/
theorem Sound.extends_link {s : Pairing} (sound : Sound a b s) {x y : State}
    (paired : Paired a b x y) (free : s.forward[x]? = some none) (free' : s.backward[y]? = some none) :
    Extends a b s ⟨s.forward.setIfInBounds x (some y), s.backward.setIfInBounds y (some x),
      s.queue ++ [(x, y)]⟩ := by
  have inX := (Array.getElem?_eq_some_iff.1 free).1
  have inY := (Array.getElem?_eq_some_iff.1 free').1
  have links : ∀ p q, Linked ⟨s.forward.setIfInBounds x (some y),
      s.backward.setIfInBounds y (some x), s.queue ++ [(x, y)]⟩ p q ↔
        s.Linked p q ∨ p = x ∧ q = y := by
    intro p q
    unfold Linked
    rw [Array.getElem?_setIfInBounds, if_pos inX]
    by_cases same : x = p
    · subst same
      simp [free, eq_comm]
    · simp [same, Ne.symm same]
  refine ⟨⟨?_, ?_, fun p q => ?_, fun p q h => ?_⟩, fun p q h => ?_, fun pair mem => ?_,
    fun p q h => ?_, fun pair mem => ?_⟩
  · rw [Array.size_setIfInBounds, sound.forward_size]
  · rw [Array.size_setIfInBounds, sound.backward_size]
  · rw [links, sound.inverse, Array.getElem?_setIfInBounds, if_pos inY]
    by_cases same : y = q
    · subst same
      simp [free', eq_comm]
    · simp [same, Ne.symm same]
  · rcases (links p q).1 h with old | ⟨rfl, rfl⟩
    · exact sound.paired p q old
    · exact paired
  · exact (links p q).2 (.inl h)
  · exact List.mem_append_left _ mem
  · rcases (links p q).1 h with old | ⟨rfl, rfl⟩
    · exact .inl old
    · exact .inr (by simp)
  · rcases List.mem_append.1 mem with old | new
    · exact .inl old
    · cases List.mem_singleton.1 new
      exact .inr ((links x y).2 (.inr ⟨rfl, rfl⟩))

/-- A step succeeds with a result that has a property, or it ends the comparison because the automata are
not isomorphic. -/
def Outcome {α : Type} (a b : Dfa) (result : Option (Option α)) (good : α → Prop) : Prop :=
  (∃ t, result = some (some t) ∧ good t) ∨ result = some none ∧ ¬ Isomorphic a b

theorem Outcome.imp {α : Type} {result : Option (Option α)} {good better : α → Prop}
    (outcome : Outcome a b result good) (imp : ∀ t, good t → better t) :
    Outcome a b result better := by
  refine outcome.imp_left ?_
  rintro ⟨t, succeeded, h⟩
  exact ⟨t, succeeded, imp t h⟩

theorem Outcome.not_failed {α : Type} {good : α → Prop} : ¬ Outcome a b none good := by
  rintro (⟨t, impossible, _⟩ | ⟨impossible, _⟩) <;> cases impossible

theorem Outcome.of_ended {α : Type} {good : α → Prop} (outcome : Outcome a b (some none) good) :
    ¬ Isomorphic a b := by
  rcases outcome with ⟨t, impossible, _⟩ | ⟨_, apart⟩
  · cases impossible
  · exact apart

theorem Outcome.of_succeeded {α : Type} {good : α → Prop} {t : α}
    (outcome : Outcome a b (some (some t)) good) : good t := by
  rcases outcome with ⟨u, same, h⟩ | ⟨impossible, _⟩
  · cases same
    exact h
  · cases impossible

/-- Only automata that are not isomorphic have a state with a partner and another state that the same
words lead to. -/
theorem Sound.forward_eq {s : Pairing} (sound : Sound a b s) (isomorphic : Isomorphic a b)
    {x y y' : State} (paired : Paired a b x y) (known : s.forward[x]? = some (some y')) : y' = y :=
  isomorphic.functional x y' y (sound.paired x y' known) paired

theorem Sound.backward_eq {s : Pairing} (sound : Sound a b s) (isomorphic : Isomorphic a b)
    {x x' y : State} (paired : Paired a b x y) (known : s.backward[y]? = some (some x')) : x' = x :=
  isomorphic.injective x' x y (sound.paired x' y ((sound.inverse x' y).2 known)) paired

/-- The states that one word leads to become partners, unless one of them has another partner. -/
theorem link_spec {s : Pairing} (sound : Sound a b s) {x y : State} (inX : x < a.numStates)
    (inY : y < b.numStates) (paired : Paired a b x y) :
    Outcome a b (s.link x y) fun t => Extends a b s t ∧ t.Linked x y := by
  have boundX : x < s.forward.size := sound.forward_size.symm ▸ inX
  have boundY : y < s.backward.size := sound.backward_size.symm ▸ inY
  unfold link
  cases right : s.forward[x]? with
  | none => exact absurd boundX (Nat.not_lt.2 (Array.getElem?_eq_none_iff.1 right))
  | some right' =>
    cases left : s.backward[y]? with
    | none => exact absurd boundY (Nat.not_lt.2 (Array.getElem?_eq_none_iff.1 left))
    | some left' =>
      simp only [Option.bind_eq_bind, Option.bind_some]
      cases right' with
      | none =>
        cases left' with
        | none =>
          refine .inl ⟨_, ?_, sound.extends_link paired right left, ?_⟩
          · simp only [write?_of_lt boundX, write?_of_lt boundY, Option.bind_some, Option.pure_def]
          · unfold Linked
            rw [Array.getElem?_setIfInBounds, if_pos rfl, if_pos boundX]
        | some x' =>
          refine .inr ⟨rfl, fun isomorphic => ?_⟩
          have known := (sound.inverse x' y).2 left
          rw [sound.backward_eq isomorphic paired left, Linked, right] at known
          cases known
      | some y' =>
        cases left' with
        | none =>
          refine .inr ⟨rfl, fun isomorphic => ?_⟩
          have known := (sound.inverse x y').1 right
          rw [sound.forward_eq isomorphic paired right, left] at known
          cases known
        | some x' =>
          dsimp only
          split
          next same => exact .inl ⟨s, rfl, sound.extends_self, same.1 ▸ right⟩
          next apart =>
            refine .inr ⟨rfl, fun isomorphic => apart ?_⟩
            exact ⟨sound.forward_eq isomorphic paired right, sound.backward_eq isomorphic paired left⟩

/-- A character leads from two states to gaps or to partners. -/
def Follows (a b : Dfa) (s : Pairing) (p q : State) (c : Char) : Prop :=
  a.next? p c = none ∧ b.next? q c = none ∨
    ∃ x y, a.next? p c = some x ∧ b.next? q c = some y ∧ s.Linked x y

theorem Follows.mono {s t : Pairing} (linked : ∀ p q, s.Linked p q → t.Linked p q) {p q : State}
    {c : Char} (follows : Follows a b s p q c) : Follows a b t p q c := by
  refine follows.imp_right ?_
  rintro ⟨x, y, left, right, h⟩
  exact ⟨x, y, left, right, linked x y h⟩

variable (wfA : a.WellFormed) (wfB : b.WellFormed)

include wfA wfB

theorem follow_spec {s : Pairing} (sound : Sound a b s) {p q : State} (paired : Paired a b p q)
    (c : Char) :
    Outcome a b (s.follow a b p q c) fun t => Extends a b s t ∧ Follows a b t p q c := by
  unfold follow
  simp only [next_eq wfA, next_eq wfB, Option.bind_eq_bind, Option.bind_some]
  cases left : a.next? p c with
  | none =>
    cases right : b.next? q c with
    | none => exact .inl ⟨s, rfl, sound.extends_self, .inl ⟨left, right⟩⟩
    | some y =>
      refine .inr ⟨rfl, fun isomorphic => ?_⟩
      have both := isomorphic.isSome_eq p q paired c
      simp [left, right] at both
  | some x =>
    cases right : b.next? q c with
    | none =>
      refine .inr ⟨rfl, fun isomorphic => ?_⟩
      have both := isomorphic.isSome_eq p q paired c
      simp [left, right] at both
    | some y =>
      have step := link_spec sound (wfA.next?_lt left) (wfB.next?_lt right) (paired.next left right)
      exact step.imp fun t ⟨grown, link⟩ => ⟨grown, .inr ⟨x, y, left, right, link⟩⟩

theorem followAll_spec {s : Pairing} (sound : Sound a b s) {p q : State} (paired : Paired a b p q)
    (letters : List Char) :
    Outcome a b (s.followAll a b p q letters) fun t =>
      Extends a b s t ∧ ∀ c ∈ letters, Follows a b t p q c := by
  induction letters generalizing s with
  | nil => exact .inl ⟨s, rfl, sound.extends_self, fun c mem => absurd mem List.not_mem_nil⟩
  | cons c rest ih =>
    have step := follow_spec wfA wfB sound paired c
    rw [followAll]
    split
    next failed =>
      rw [failed] at step
      exact absurd step Outcome.not_failed
    next ended =>
      rw [ended] at step
      exact .inr ⟨rfl, step.of_ended⟩
    next t followed =>
      rw [followed] at step
      obtain ⟨grown, here⟩ := step.of_succeeded
      refine (ih grown.sound).imp fun u after => ?_
      obtain ⟨more, later⟩ := after
      refine ⟨grown.trans more, fun letter mem => ?_⟩
      rcases List.mem_cons.1 mem with rfl | mem
      · exact here.mono more.linked
      · exact later letter mem

/-- Two partners behave alike, and so do their successors if partners do. -/
def Checked (a b : Dfa) (s : Pairing) (p q : State) : Prop :=
  a.isAccepting p = b.isAccepting q ∧ ∀ c ∈ a.alphabet, Follows a b s p q c

theorem visit_spec {s : Pairing} (sound : Sound a b s) {p q : State} (inP : p < a.numStates)
    (inQ : q < b.numStates) (paired : Paired a b p q) :
    Outcome a b (s.visit a b p q) fun t => Extends a b s t ∧ Checked a b t p q := by
  unfold visit
  simp only [getElem?_accepting inP, getElem?_accepting inQ, Option.bind_eq_bind, Option.bind_some]
  split
  next same =>
    have step := followAll_spec wfA wfB sound paired a.alphabet.toList
    exact step.imp fun t after => ⟨after.1, same, after.2⟩
  next differ =>
    exact .inr ⟨rfl, fun isomorphic => differ (isomorphic.isAccepting_eq p q paired)⟩

omit wfA wfB

/-- What holds whenever a pair is taken from the queue. -/
structure Running (a b : Dfa) (s : Pairing) : Prop extends Sound a b s where
  start_linked : s.Linked a.start b.start
  queue_linked : ∀ pair ∈ s.queue, s.Linked pair.1 pair.2
  closed : ∀ p q, s.Linked p q → (p, q) ∉ s.queue → Checked a b s p q

include wfA wfB in
theorem Running.visit {forward backward : Array (Option State)} {p q : State}
    {rest : List (State × State)} (running : Running a b ⟨forward, backward, (p, q) :: rest⟩) :
    Outcome a b (visit a b ⟨forward, backward, rest⟩ p q) (Running a b) := by
  have sound : Sound a b ⟨forward, backward, rest⟩ :=
    ⟨running.forward_size, running.backward_size, running.inverse, running.paired⟩
  have here : Linked ⟨forward, backward, rest⟩ p q :=
    running.queue_linked (p, q) List.mem_cons_self
  have inP : p < a.numStates := running.forward_size ▸ (Array.getElem?_eq_some_iff.1 here).1
  have inQ : q < b.numStates :=
    running.backward_size ▸ (Array.getElem?_eq_some_iff.1 ((sound.inverse p q).1 here)).1
  refine (visit_spec wfA wfB sound inP inQ (sound.paired p q here)).imp fun t after => ?_
  obtain ⟨grown, checked⟩ := after
  refine ⟨grown.sound, grown.linked _ _ running.start_linked, fun pair mem => ?_,
    fun x y link absent => ?_⟩
  · rcases grown.queue_linked pair mem with old | new
    · exact grown.linked _ _ (running.queue_linked pair (List.mem_cons_of_mem _ old))
    · exact new
  · by_cases same : (x, y) = (p, q)
    · cases same
      exact checked
    · have old := (grown.new_queued x y link).resolve_right absent
      have left : (x, y) ∉ (p, q) :: rest := by
        rw [List.mem_cons, not_or]
        exact ⟨same, fun waiting => absent (grown.queued _ waiting)⟩
      obtain ⟨accepting, follows⟩ := running.closed x y old left
      exact ⟨accepting, fun c mem => (follows c mem).mono grown.linked⟩

/-- Once the queue is empty, partners are the states that one word leads to. -/
theorem Running.linked_iff {forward backward : Array (Option State)}
    (running : Running a b ⟨forward, backward, []⟩) {p q : State} :
    Linked ⟨forward, backward, []⟩ p q ↔ Paired a b p q := by
  constructor
  · exact running.paired p q
  · rintro ⟨w, left, right⟩
    induction w using List.reverseRecOn generalizing p q with
    | nil =>
      cases left
      cases right
      exact running.start_linked
    | append_singleton w c ih =>
      obtain ⟨x, toX, left⟩ := run?_snoc.1 left
      obtain ⟨y, toY, right⟩ := run?_snoc.1 right
      have letter : c ∈ a.alphabet := by
        refine Classical.byContradiction fun unknown => ?_
        rw [next?_eq_none_of_not_mem unknown] at left
        cases left
      rcases (running.closed x y (ih toX toY) List.not_mem_nil).2 c letter with
        ⟨gap, _⟩ | ⟨p', q', first, second, link⟩
      · rw [left] at gap
        cases gap
      · rw [left] at first
        rw [right] at second
        cases first
        cases second
        exact link

/-- Then the automata are isomorphic if and only if every state has a partner. -/
theorem Running.all_isSome_iff {forward backward : Array (Option State)}
    (alphabet : a.alphabet = b.alphabet) (states : a.numStates = b.numStates)
    (running : Running a b ⟨forward, backward, []⟩) :
    forward.all Option.isSome = true ↔ Isomorphic a b := by
  have checked : ∀ p q, Paired a b p q → Checked a b ⟨forward, backward, []⟩ p q :=
    fun p q paired => running.closed p q (running.linked_iff.2 paired) List.not_mem_nil
  rw [Array.all_eq_true]
  constructor
  · intro all
    refine ⟨alphabet, states, fun p q paired => (checked p q paired).1, fun p q paired c => ?_,
      fun p q r first second => ?_, fun p q r first second => ?_, fun p inside => ?_⟩
    · by_cases letter : c ∈ a.alphabet
      · rcases (checked p q paired).2 c letter with ⟨left, right⟩ | ⟨x, y, left, right, _⟩
        · rw [left, right]
        · rw [left, right]
          rfl
      · rw [next?_eq_none_of_not_mem letter, next?_eq_none_of_not_mem (alphabet ▸ letter)]
    · have left := running.linked_iff.2 first
      have right := running.linked_iff.2 second
      unfold Linked at left right
      rw [left] at right
      exact Option.some.inj (Option.some.inj right)
    · have left := (running.inverse p r).1 (running.linked_iff.2 first)
      have right := (running.inverse q r).1 (running.linked_iff.2 second)
      rw [left] at right
      exact Option.some.inj (Option.some.inj right)
    · have bound : p < forward.size := running.forward_size.symm ▸ inside
      obtain ⟨q, partner⟩ := Option.isSome_iff_exists.1 (all p bound)
      refine ⟨q, running.linked_iff.1 ?_⟩
      rw [Linked, Array.getElem?_eq_getElem bound, partner]
  · intro isomorphic p bound
    obtain ⟨q, paired⟩ := isomorphic.covers p (running.forward_size ▸ bound)
    have link := running.linked_iff.2 paired
    rw [Linked, Array.getElem?_eq_getElem bound, Option.some_inj] at link
    rw [link]
    rfl

include wfA wfB in
theorem search_spec (alphabet : a.alphabet = b.alphabet) (states : a.numStates = b.numStates)
    {s : Pairing} (running : Running a b s) :
    Outcome a b (search a b s) fun partners =>
      partners.all Option.isSome = true ↔ Isomorphic a b := by
  fun_induction search a b s with
  | case1 forward backward => exact .inl ⟨forward, rfl, running.all_isSome_iff alphabet states⟩
  | case2 forward backward p q rest failed =>
    have step := running.visit wfA wfB
    rw [failed] at step
    exact absurd step Outcome.not_failed
  | case3 forward backward p q rest ended =>
    have step := running.visit wfA wfB
    rw [ended] at step
    exact .inr ⟨rfl, step.of_ended⟩
  | case4 forward backward p q rest after visited ih =>
    have step := running.visit wfA wfB
    rw [visited] at step
    exact ih step.of_succeeded

include wfA wfB in
theorem running_start : Running a b
    ⟨(Array.replicate a.numStates none).setIfInBounds a.start (some b.start),
      (Array.replicate b.numStates none).setIfInBounds b.start (some a.start),
      [(a.start, b.start)]⟩ := by
  have unlinked : ∀ p q, ¬ Linked
      ⟨Array.replicate a.numStates none, Array.replicate b.numStates none, []⟩ p q := by
    simp [Linked, Array.getElem?_replicate]
  have blank : Sound a b ⟨Array.replicate a.numStates none, Array.replicate b.numStates none, []⟩ := by
    refine ⟨Array.size_replicate, Array.size_replicate, fun p q => ?_, fun p q h => ?_⟩
    · simp [unlinked, Array.getElem?_replicate]
    · exact absurd h (unlinked p q)
  have inA : a.start < a.numStates := wfA.start_lt
  have inB : b.start < b.numStates := wfB.start_lt
  have first := blank.extends_link (paired_start a b) (by simp [inA]) (by simp [inB])
  refine ⟨first.sound, by simp [Linked, inA], fun pair mem => ?_, fun p q h absent => ?_⟩
  · cases List.mem_singleton.1 mem
    simp [Linked, inA]
  · exact absurd ((first.new_queued p q h).resolve_left (unlinked p q)) absent

end Pairing

/-- The comparison with guards gives the answer of the comparison. -/
theorem isIsomorphic_eq (wfA : a.WellFormed) (wfB : b.WellFormed) :
    isIsomorphic a b = some (a.isIsomorphic b) := by
  unfold isIsomorphic
  split
  next same =>
    have inA : a.start < (Array.replicate a.numStates (none : Option State)).size :=
      Array.size_replicate.symm ▸ wfA.start_lt
    have inB : b.start < (Array.replicate b.numStates (none : Option State)).size :=
      Array.size_replicate.symm ▸ wfB.start_lt
    simp only [write?_of_lt inA, write?_of_lt inB, Option.bind_eq_bind, Option.bind_some]
    rcases Pairing.search_spec wfA wfB same.1 same.2 (Pairing.running_start wfA wfB) with
      ⟨partners, found, all⟩ | ⟨ended, apart⟩
    · rw [found]
      show some (partners.all Option.isSome) = _
      rw [Option.some_inj, Bool.eq_iff_iff, all, isIsomorphic_iff]
    · rw [ended]
      show some false = _
      rw [Option.some_inj, eq_comm, ← Bool.not_eq_true, isIsomorphic_iff]
      exact apart
  next differ => rw [Dfa.isIsomorphic, if_neg differ]

end Lexing.Dfa.Guarded
