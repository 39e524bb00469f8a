import Lexing.Proofs.Fragment.Language
import Lexing.Proofs.Nfa.Simulation

set_option autoImplicit false

namespace Lexing

namespace Fragment

/-- The automaton with the edges of a fragment, from its way in to its way out. -/
def automaton (f : Fragment) : Nfa :=
  { Nfa.ofEdges f.edges with start := f.start, accepting := (∅ : StateSet).insert f.accept }

theorem path_automaton_iff {f : Fragment} {p q : State} {w : List Char} :
    f.automaton.Path p w q ↔ f.Leads p w q := by
  have same : ∀ e, e ∈ f.automaton.edges ↔ e ∈ (Nfa.ofEdges f.edges).edges := fun _ => Iff.rfl
  exact ⟨.mono fun e => (same e).1, .mono fun e => (same e).2⟩

theorem accept_lt_numStates_iff {base : Nat} {f : Fragment} (placed : f.Placed base) :
    f.accept < (Nfa.ofEdges f.edges).numStates ↔ ∃ e ∈ f.edges, e.target = f.accept := by
  rw [Nfa.lt_numStates_ofEdges]
  constructor
  · rintro (zero | ⟨e, mem, source | target⟩)
    · exact absurd (zero ▸ placed.start_lt_accept) (Nat.not_lt_zero _)
    · exact absurd (placed.source_lt_accept e mem) (Nat.not_lt.2 source)
    · have below := (placed.edge_lt e mem).2
      rw [placed.next_eq] at below
      exact ⟨e, mem, Nat.le_antisymm (Nat.lt_succ_iff.1 below) target⟩
  · rintro ⟨e, mem, target⟩
    exact .inr ⟨e, mem, .inr (Nat.le_of_eq target.symm)⟩

theorem applyAll?_ofEdges {base : Nat} {f : Fragment} (placed : f.Placed base) :
    (Nfa.ofEdges f.edges).applyAll? [.setStart f.start, .addAccepting f.accept] =
      if f.accept < (Nfa.ofEdges f.edges).numStates then some f.automaton else none := by
  by_cases last : f.accept < (Nfa.ofEdges f.edges).numStates
  · have first : f.start < (Nfa.ofEdges f.edges).numStates :=
      Nat.lt_trans placed.start_lt_accept last
    simp only [Nfa.applyAll?, Nfa.apply, Nfa.setStart, Nfa.addAccepting, first, last, if_true]
    rfl
  · rw [if_neg last, Nfa.applyAll?, Nfa.apply, Nfa.setStart]
    split
    next after _ started =>
      split at started
      · cases started
        simp only [Nfa.applyAll?, Nfa.apply, Nfa.addAccepting, last, if_false]
      · cases started
    · rfl

theorem accepts_automaton {f : Fragment} {words : List Char → Prop}
    (recognizes : f.Recognizes words) {w : List Char} :
    f.automaton.accepts w = true ↔ words w := by
  rw [Nfa.accepts_iff_path, ← recognizes w]
  have same : ∀ q, q ∈ f.automaton.accepting ↔ q = f.accept := by
    intro q
    simp [automaton]
  constructor
  · rintro ⟨q, accepting, path⟩
    rw [(same q).1 accepting] at path
    exact path_automaton_iff.1 path
  · intro leads
    exact ⟨f.accept, (same _).2 rfl, path_automaton_iff.2 leads⟩

end Fragment

namespace Pattern

instance (p : Pattern) (w : List Char) : Decidable (p.Matches w) :=
  decidable_of_iff _ (Fragment.accepts_automaton (p.recognizes_fragment 0))

/-- The factor that a sequence ends with. -/
def lastFactor : Pattern → Pattern
  | seq _ right => right.lastFactor
  | p => p

theorem exists_mem_between {first last : Char} : (∃ c, c ∈ Text.between first last) ↔ first ≤ last := by
  constructor
  · rintro ⟨c, mem⟩
    obtain ⟨lower, upper⟩ := Text.mem_between.1 mem
    exact Char.le_trans lower upper
  · intro ordered
    exact ⟨first, Text.mem_between.2 ⟨Char.le_refl first, ordered⟩⟩

/-- Only an empty range at the end keeps the edges away from the way out. -/
theorem exists_edge_to_accept_iff {p : Pattern} {base : Nat} :
    (∃ e ∈ (p.fragment base).edges, e.target = (p.fragment base).accept) ↔
      ∀ first last, p.lastFactor = range first last → first ≤ last := by
  induction p generalizing base with
  | char c =>
    constructor
    · intro _ first last same
      cases same
    · intro _
      exact ⟨_, List.mem_singleton_self _, rfl⟩
  | range first last =>
    constructor
    · rintro ⟨e, mem, _⟩ _ _ same
      cases same
      obtain ⟨c, between, _⟩ := List.mem_map.1 mem
      exact exists_mem_between.1 ⟨c, between⟩
    · intro ordered
      obtain ⟨c, between⟩ := exists_mem_between.2 (ordered first last rfl)
      exact ⟨_, List.mem_map.2 ⟨c, between, rfl⟩, rfl⟩
  | seq left right ihLeft ihRight =>
    rw [lastFactor, ← @ihRight (left.fragment base).next]
    have placed := left.placed_fragment base
    have later := right.placed_fragment (left.fragment base).next
    constructor
    · rintro ⟨e, mem, target⟩
      rcases Fragment.mem_edges_seq.1 mem with old | new | rfl
      · have below := Nat.lt_of_lt_of_le (placed.edge_lt e old).2 later.accept_ge
        exact absurd target (Nat.ne_of_lt below)
      · exact ⟨e, new, target⟩
      · exact absurd target (Nat.ne_of_lt later.start_lt_accept)
    · rintro ⟨e, mem, target⟩
      exact ⟨e, Fragment.mem_edges_seq.2 (.inr (.inl mem)), target⟩
  | alt left right _ _ =>
    constructor
    · intro _ first last same
      cases same
    · intro _
      exact ⟨_, Fragment.mem_edges_alt.2 (.inr (.inr (.inr (.inr (.inl rfl))))), rfl⟩
  | opt body _ | star body _ | plus body _ =>
    constructor
    · intro _ first last same
      cases same
    · intro _
      exact ⟨_, Fragment.mem_edges_wrap.2 (.inr (.inr (.inr (.inr rfl)))), rfl⟩

theorem toNfa?_eq (p : Pattern) :
    p.toNfa? =
      if (p.fragment 0).next ≤ maxStates ∧
          (p.fragment 0).accept < (Nfa.ofEdges (p.fragment 0).edges).numStates then
        some (p.fragment 0).automaton
      else none := by
  rw [toNfa?, Fragment.applyAll?_ofEdges (p.placed_fragment 0)]
  by_cases fits : (p.fragment 0).next ≤ maxStates <;> simp [fits]

/-- The automaton of a pattern accepts the words that the pattern stands for. -/
theorem accepts_of_toNfa? {p : Pattern} {n : Nfa} (made : p.toNfa? = some n) {w : List Char} :
    n.accepts w = true ↔ p.Matches w := by
  rw [toNfa?_eq] at made
  split at made
  · cases made
    exact Fragment.accepts_automaton (p.recognizes_fragment 0)
  · cases made

theorem exists_toNfa? {p : Pattern} (small : 2 * p.weight ≤ maxStates)
    (ordered : ∀ first last, p.lastFactor = range first last → first ≤ last) :
    ∃ n, p.toNfa? = some n := by
  have fits : (p.fragment 0).next ≤ maxStates := by
    rw [next_fragment, Nat.zero_add]
    exact small
  have reached := (Fragment.accept_lt_numStates_iff (p.placed_fragment 0)).2
    (exists_edge_to_accept_iff.2 ordered)
  rw [toNfa?_eq, if_pos ⟨fits, reached⟩]
  exact ⟨_, rfl⟩

end Pattern

end Lexing
