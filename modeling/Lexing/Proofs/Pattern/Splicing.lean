import Lexing.Pattern.Splicing
import Lexing.Proofs.Pattern.Automaton

set_option autoImplicit false

namespace Lexing

namespace Splicing

theorem pair_eq (s : Splicing) :
    s.pair = if s.next + 2 ≤ maxStates then
      some (⟨s.next, s.next + 1⟩, { s with next := s.next + 2 }) else none := by
  unfold pair fresh
  by_cases first : s.next < maxStates
  · by_cases second : s.next + 1 < maxStates
    · rw [if_pos first, if_pos (show s.next + 2 ≤ maxStates from second)]
      show (if s.next + 1 < maxStates then _ else none).bind _ = _
      rw [if_pos second]
      rfl
    · rw [if_pos first, if_neg (show ¬ s.next + 2 ≤ maxStates from second)]
      show (if s.next + 1 < maxStates then _ else none).bind _ = _
      rw [if_neg second]
      rfl
  · rw [if_neg first, if_neg (by omega)]
    rfl

theorem edge_ofEdges {next : Nat} {es : List Edge} {e : Edge} (source : e.source < maxStates)
    (target : e.target < maxStates) :
    edge ⟨next, .ofEdges es⟩ e = some ⟨next, .ofEdges (e :: es)⟩ := by
  rw [edge, Nfa.addEdge_ofEdges source target]

theorem edges_ofEdges {next : Nat} {es added : List Edge}
    (below : ∀ e ∈ added, e.source < maxStates ∧ e.target < maxStates) :
    added.foldlM edge ⟨next, .ofEdges es⟩ = some ⟨next, .ofEdges (added ++ es)⟩ := by
  induction added generalizing es with
  | nil => rfl
  | cons e rest ih =>
    obtain ⟨source, target⟩ := below e List.mem_cons_self
    rw [List.foldlM_cons, edge_ofEdges source target]
    show rest.foldlM edge ⟨next, .ofEdges (e :: es)⟩ = _
    rw [ih fun a mem => below a (List.mem_cons_of_mem e mem)]
    have same : Nfa.ofEdges (rest ++ e :: es) = .ofEdges (e :: rest ++ es) :=
      Nfa.ofEdges_congr fun a => by simp [or_left_comm]
    rw [same]

theorem frame_ofEdges {base : Nat} {es : List Edge} {added : Ends → List Edge}
    (below : base + 2 ≤ maxStates →
      ∀ e ∈ added ⟨base, base + 1⟩, e.source < maxStates ∧ e.target < maxStates) :
    frame ⟨base, .ofEdges es⟩ added = if base + 2 ≤ maxStates then
      some (⟨base, base + 1⟩, ⟨base + 2, .ofEdges (added ⟨base, base + 1⟩ ++ es)⟩) else none := by
  rw [frame, pair_eq]
  by_cases fits : base + 2 ≤ maxStates
  · rw [if_pos fits, if_pos fits]
    show ((added ⟨base, base + 1⟩).foldlM edge ⟨base + 2, .ofEdges es⟩).bind _ = _
    rw [edges_ofEdges (below fits)]
    rfl
  · rw [if_neg fits, if_neg fits]
    rfl

/-- A fragment put into an automaton with some edges. -/
def after (es : List Edge) (f : Fragment) : Option (Ends × Splicing) :=
  if f.next ≤ maxStates then some (⟨f.start, f.accept⟩, ⟨f.next, .ofEdges (f.edges ++ es)⟩) else none

/-- If the counter has run over after a part, then it does so after the whole. -/
theorem after_bind {f g : Fragment} {es more : List Edge} {rest : Ends × Splicing → Option (Ends × Splicing)}
    (le : f.next ≤ g.next)
    (continued : f.next ≤ maxStates →
      rest (⟨f.start, f.accept⟩, ⟨f.next, .ofEdges (f.edges ++ es)⟩) = after more g) :
    (after es f).bind rest = after more g := by
  by_cases fits : f.next ≤ maxStates
  · rw [after, if_pos fits]
    exact continued fits
  · have beyond : ¬ g.next ≤ maxStates := fun room => fits (Nat.le_trans le room)
    rw [after, if_neg fits, after, if_neg beyond]
    rfl

/-- What a fragment adds to its parts are two ends and edges that use them. -/
theorem frame_eq_after {base : Nat} {f : Fragment} {added : Ends → List Edge} (inner es : List Edge)
    (start : f.start = base) (accept : f.accept = base + 1) (next : f.next = base + 2)
    (edge_lt : ∀ e ∈ f.edges, e.source < f.next ∧ e.target < f.next)
    (edges : ∀ e, e ∈ f.edges ↔ e ∈ inner ∨ e ∈ added ⟨base, base + 1⟩) :
    frame ⟨base, .ofEdges (inner ++ es)⟩ added = after es f := by
  rw [frame_ofEdges, after, start, accept, next]
  · have same : Nfa.ofEdges (added ⟨base, base + 1⟩ ++ (inner ++ es)) = .ofEdges (f.edges ++ es) := by
      refine Nfa.ofEdges_congr fun e => ?_
      simp only [List.mem_append, edges]
      rw [← or_assoc, or_comm (a := e ∈ inner)]
    rw [same]
  · intro fits e mem
    obtain ⟨source, target⟩ := edge_lt e ((edges e).2 (.inr mem))
    rw [next] at source target
    exact ⟨Nat.lt_of_lt_of_le source fits, Nat.lt_of_lt_of_le target fits⟩

theorem frame_letters (base : Nat) (cs : List Char) (es : List Edge) :
    frame ⟨base, .ofEdges es⟩ (fun f => cs.map fun c => ⟨f.start, some c, f.accept⟩) =
      after es (.letters base cs) := by
  refine frame_eq_after [] es rfl rfl rfl (Fragment.bounded_letters base cs).edge_lt fun e => ?_
  simp only [Fragment.letters, List.not_mem_nil, false_or]

variable {base : Nat} {f g : Fragment} {part : Splicing → Option (Ends × Splicing)}

theorem after_bind_wrapping (bounded : f.Bounded base) (skip again : Bool) (es : List Edge) :
    ((after es f).bind fun (inner, s) => s.frame (wrapping skip again inner)) =
      after es (f.wrap skip again) := by
  refine after_bind (Nat.le_add_right f.next 2) fun _ => ?_
  refine frame_eq_after f.edges es rfl rfl rfl (bounded.wrap skip again).edge_lt fun e => ?_
  simp only [Fragment.wrap, wrapping, List.append_assoc, List.mem_append]

/-- If the second operand adds a fragment to what is there, so does a sequence. -/
theorem after_bind_seq (left : f.Bounded base) (right : g.Bounded f.next)
    (adds : ∀ es, part ⟨f.next, .ofEdges es⟩ = after es g) (es : List Edge) :
    ((after es f).bind fun (f, s) => (part s).bind fun (g, s) =>
      (s.edge ⟨f.accept, none, g.start⟩).bind fun s => some (⟨f.start, g.accept⟩, s)) =
      after es (f.seq g) := by
  refine after_bind right.base_le fun fits => ?_
  show (part ⟨f.next, .ofEdges (f.edges ++ es)⟩).bind _ = _
  rw [adds]
  refine after_bind (Nat.le_refl g.next) fun room => ?_
  have same : Nfa.ofEdges (⟨f.accept, none, g.start⟩ :: (g.edges ++ (f.edges ++ es))) =
      .ofEdges ((f.seq g).edges ++ es) := by
    refine Nfa.ofEdges_congr fun e => ?_
    simp only [Fragment.seq, List.mem_cons, List.mem_append, List.not_mem_nil, or_false]
    grind
  show (edge ⟨g.next, .ofEdges (g.edges ++ (f.edges ++ es))⟩ ⟨f.accept, none, g.start⟩).bind _ = _
  rw [edge_ofEdges (Nat.lt_of_lt_of_le left.accept_lt fits) (Nat.lt_of_lt_of_le right.start_lt room),
    same, after]
  exact (if_pos (show (f.seq g).next ≤ maxStates from room)).symm

/-- So does an alternative. -/
theorem after_bind_alt (left : f.Bounded base) (right : g.Bounded f.next)
    (adds : ∀ es, part ⟨f.next, .ofEdges es⟩ = after es g) (es : List Edge) :
    ((after es f).bind fun (f, s) => (part s).bind fun (g, s) =>
      s.frame fun ends => [⟨ends.start, none, f.start⟩, ⟨ends.start, none, g.start⟩,
        ⟨f.accept, none, ends.accept⟩, ⟨g.accept, none, ends.accept⟩]) =
      after es (f.alt g) := by
  refine after_bind (Nat.le_trans right.base_le (Nat.le_add_right g.next 2)) fun _ => ?_
  show (part ⟨f.next, .ofEdges (f.edges ++ es)⟩).bind _ = _
  rw [adds]
  refine after_bind (Nat.le_add_right g.next 2) fun _ => ?_
  show frame ⟨g.next, .ofEdges (g.edges ++ (f.edges ++ es))⟩ _ = _
  rw [← List.append_assoc]
  refine frame_eq_after (g.edges ++ f.edges) es rfl rfl rfl (left.alt right).edge_lt fun e => ?_
  simp only [Fragment.alt, List.mem_append]
  rw [or_comm (a := e ∈ f.edges)]

end Splicing

namespace Pattern

theorem splice_ofEdges (p : Pattern) (base : Nat) (es : List Edge) :
    p.splice ⟨base, .ofEdges es⟩ = Splicing.after es (p.fragment base) := by
  induction p generalizing base es with
  | char c => exact Splicing.frame_letters base [c] es
  | range first last => exact Splicing.frame_letters base _ es
  | seq left right ihLeft ihRight =>
    rw [splice, ihLeft]
    exact Splicing.after_bind_seq (left.bounded_fragment base) (right.bounded_fragment _) (ihRight _) es
  | alt left right ihLeft ihRight =>
    rw [splice, ihLeft]
    exact Splicing.after_bind_alt (left.bounded_fragment base) (right.bounded_fragment _) (ihRight _) es
  | opt body ih =>
    rw [splice, ih]
    exact Splicing.after_bind_wrapping (body.bounded_fragment base) true false es
  | star body ih =>
    rw [splice, ih]
    exact Splicing.after_bind_wrapping (body.bounded_fragment base) true true es
  | plus body ih =>
    rw [splice, ih]
    exact Splicing.after_bind_wrapping (body.bounded_fragment base) false true es

theorem spliced?_eq (p : Pattern) : p.spliced? = p.toNfa? := by
  rw [spliced?, ← Nfa.ofEdges_nil, splice_ofEdges, Splicing.after, toNfa?]
  by_cases fits : (p.fragment 0).next ≤ maxStates
  · rw [if_pos fits, if_pos fits, List.append_nil]
    rfl
  · rw [if_neg fits, if_neg fits]
    rfl

end Pattern

end Lexing
