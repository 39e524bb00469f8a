import Lexing.Proofs.Fragment.Shape
import Lexing.Proofs.Pattern.Splicing
import Lexing.Proofs.Regex

set_option autoImplicit false

namespace Lexing

namespace Fragment

/-- The states on the edges of a fragment are all of its states if an edge leads to the way out. -/
theorem numStates_ofEdges {base : Nat} {f : Fragment} (placed : f.Placed base)
    (last : f.accept < (Nfa.ofEdges f.edges).numStates) :
    (Nfa.ofEdges f.edges).numStates = f.next := by
  refine Nat.le_antisymm ?_ (placed.next_eq ▸ last)
  refine Nat.le_of_not_lt fun more => ?_
  rcases Nfa.lt_numStates_ofEdges.1 more with zero | ⟨e, mem, source | target⟩
  · exact absurd (zero ▸ placed.start_lt) (Nat.not_lt_zero _)
  · exact absurd (placed.edge_lt e mem).1 (Nat.not_lt.2 source)
  · exact absurd (placed.edge_lt e mem).2 (Nat.not_lt.2 target)

def Reads (f : Fragment) (c : Char) : Prop := ∃ e ∈ f.edges, e.label = some c

theorem reads_letters {base : Nat} {cs : List Char} {c : Char} :
    (letters base cs).Reads c ↔ c ∈ cs := by
  simp [Reads, letters]

theorem reads_seq {f g : Fragment} {c : Char} : (f.seq g).Reads c ↔ f.Reads c ∨ g.Reads c := by
  simp [Reads, mem_edges_seq, or_and_right, exists_or]

theorem reads_alt {f g : Fragment} {c : Char} : (f.alt g).Reads c ↔ f.Reads c ∨ g.Reads c := by
  simp [Reads, mem_edges_alt, or_and_right, exists_or]

theorem reads_wrap {skip again : Bool} {f : Fragment} {c : Char} :
    (f.wrap skip again).Reads c ↔ f.Reads c := by
  simp [Reads, mem_edges_wrap, or_and_right, exists_or]

theorem mem_accepting_automaton {f : Fragment} {q : State} :
    q ∈ f.automaton.accepting ↔ q = f.accept := by
  simp [automaton]

theorem mem_alphabet_automaton {f : Fragment} {c : Char} :
    c ∈ f.automaton.alphabet ↔ f.Reads c := by
  rw [automaton, Nfa.ofEdges, SortedSet.mem_ofList, List.mem_filterMap, Reads]

end Fragment

namespace Pattern

/-- A character is one of those of a pattern, alone or in a range. -/
def Mentions : Pattern → Char → Prop
  | char a, c => c = a
  | range first last, c => first ≤ c ∧ c ≤ last
  | seq left right, c => left.Mentions c ∨ right.Mentions c
  | alt left right, c => left.Mentions c ∨ right.Mentions c
  | opt body, c => body.Mentions c
  | star body, c => body.Mentions c
  | plus body, c => body.Mentions c

/-- Operators add silent edges only. -/
theorem reads_fragment {p : Pattern} {base : Nat} {c : Char} :
    (p.fragment base).Reads c ↔ p.Mentions c := by
  induction p generalizing base with
  | char a => exact Fragment.reads_letters.trans List.mem_singleton
  | range first last => exact Fragment.reads_letters.trans Text.mem_between
  | seq left right ihLeft ihRight => exact Fragment.reads_seq.trans (or_congr ihLeft ihRight)
  | alt left right ihLeft ihRight => exact Fragment.reads_alt.trans (or_congr ihLeft ihRight)
  | opt body ih | star body ih | plus body ih => exact Fragment.reads_wrap.trans ih

def EndsEmpty (p : Pattern) : Prop := ∃ first last, p.lastFactor = range first last ∧ last < first

theorem accept_lt_numStates_iff (p : Pattern) :
    (p.fragment 0).accept < (Nfa.ofEdges (p.fragment 0).edges).numStates ↔ ¬ p.EndsEmpty := by
  rw [Fragment.accept_lt_numStates_iff (p.placed_fragment 0), exists_edge_to_accept_iff, EndsEmpty]
  simp only [not_exists, not_and, Char.not_lt]

theorem toNfa?_eq_none_iff {p : Pattern} :
    p.toNfa? = none ↔ p.EndsEmpty ∨ maxStates < 2 * p.weight := by
  rw [toNfa?_eq, ite_eq_right_iff, accept_lt_numStates_iff, next_fragment, Nat.zero_add]
  simp only [reduceCtorEq, imp_false, not_and_or, not_not, Nat.not_le]
  exact or_comm

theorem eq_automaton_of_toNfa? {p : Pattern} {n : Nfa} (made : p.toNfa? = some n) :
    n = (p.fragment 0).automaton ∧ n.numStates = 2 * p.weight := by
  rw [toNfa?_eq] at made
  split at made
  next possible =>
    cases made
    refine ⟨rfl, ?_⟩
    show (Nfa.ofEdges (p.fragment 0).edges).numStates = _
    rw [Fragment.numStates_ofEdges (p.placed_fragment 0) possible.2, next_fragment, Nat.zero_add]
  · cases made

theorem compile_eq_error_iff {p : Pattern} {e : CompileError} :
    p.compile = .error e ↔ p.toNfa? = none ∧ e = .tooManyStates := by
  rw [compile]
  cases p.toNfa? <;> simp [eq_comm]

theorem compile_eq_ok_iff {p : Pattern} {n : Nfa} : p.compile = .ok n ↔ p.toNfa? = some n := by
  rw [compile]
  cases p.toNfa? <;> simp

/-- A pattern is refused exactly if it ends with an empty range or has too many parts for the states to
be numbered. Otherwise the number of states, the accepting states and the alphabet are known. A
pattern that is spelled by a text does not end with an empty range, and it is no larger than the
text. -/
theorem compile_size (p : Pattern) :
    (p.compile = .error .tooManyStates ↔ p.EndsEmpty ∨ 2 ^ 64 - 1 < 2 * p.weight) ∧
    (¬ (p.EndsEmpty ∨ 2 ^ 64 - 1 < 2 * p.weight) →
      ∃ n, p.compile = .ok n ∧ p.spliced? = some n ∧ n.numStates = 2 * p.weight ∧
        (∃! q, q ∈ n.accepting) ∧ ∀ c, c ∈ n.alphabet ↔ p.Mentions c) ∧
    ∀ text, parse text = .ok p → ¬ p.EndsEmpty ∧ p.weight ≤ text.length ∧
      ∀ n, p.compile = .ok n → n.numStates ≤ 2 * text.length := by
  have refused : p.toNfa? = none ↔ p.EndsEmpty ∨ 2 ^ 64 - 1 < 2 * p.weight := toNfa?_eq_none_iff
  refine ⟨?_, fun possible => ?_, fun text parsed => ?_⟩
  · rw [compile_eq_error_iff, refused, and_iff_left rfl]
  · obtain ⟨n, made⟩ := Option.ne_none_iff_exists'.1 fun none => possible (refused.1 none)
    obtain ⟨rfl, size⟩ := eq_automaton_of_toNfa? made
    refine ⟨_, compile_eq_ok_iff.2 made, (spliced?_eq p).trans made, size, ?_, fun c => ?_⟩
    · refine ⟨(p.fragment 0).accept, Fragment.mem_accepting_automaton.2 rfl, fun q mem => ?_⟩
      exact Fragment.mem_accepting_automaton.1 mem
    · rw [Fragment.mem_alphabet_automaton, reads_fragment]
  · have spelled : Spells .alternation text.toList p := spells_of_readAfter parsed .nil
    have light := spelled.weight_le_length
    rw [String.length_toList] at light
    refine ⟨?_, light, fun n made => ?_⟩
    · rintro ⟨first, last, same, crossed⟩
      have wf := spelled.wellFormed.lastFactor
      rw [same] at wf
      exact Char.not_lt.2 wf.2.2 crossed
    · rw [(eq_automaton_of_toNfa? (compile_eq_ok_iff.1 made)).2]
      exact Nat.mul_le_mul_left 2 light

/-- An empty range does no harm in front, but it does at the end. -/
theorem compile_size_crossed :
    (∃ n, (seq (range 'b' 'a') (char 'c')).compile = .ok n ∧ n.numStates = 4 ∧
      ∀ c, c ∈ n.alphabet ↔ (seq (range 'b' 'a') (char 'c')).Mentions c) ∧
    (seq (char 'c') (range 'b' 'a')).compile = .error .tooManyStates ∧
    parse "a" = .ok (char 'a') ∧ ∀ n, (char 'a').compile = .ok n → n.numStates ≤ 2 := by
  have front : ¬ ((seq (range 'b' 'a') (char 'c')).EndsEmpty ∨
      2 ^ 64 - 1 < 2 * (seq (range 'b' 'a') (char 'c')).weight) := by
    rintro (⟨first, last, same, _⟩ | many)
    · cases same
    · exact absurd many (by decide)
  have atEnd : (seq (char 'c') (range 'b' 'a')).EndsEmpty := ⟨'b', 'a', rfl, by decide⟩
  have letter : Spells .item ['a'] (char 'a') := .plain (.literal (by decide))
  have parsed : parse "a" = .ok (char 'a') := letter.one.single.readable
  obtain ⟨n, made, _, size, _, alphabet⟩ := (compile_size _).2.1 front
  exact ⟨⟨n, made, size, alphabet⟩, (compile_size _).1.2 (.inl atEnd), parsed,
    ((compile_size _).2.2 "a" parsed).2.2⟩

end Pattern

end Lexing

namespace Lexing.Pattern

theorem WellFormed.ordered {p : Pattern} (wf : p.WellFormed) : p.Ordered := by
  induction p with
  | char c => trivial
  | range first last => exact wf.2.2
  | seq left right ihLeft ihRight | alt left right ihLeft ihRight =>
    exact ⟨ihLeft wf.1, ihRight wf.2⟩
  | opt body ih | star body ih | plus body ih => exact ih wf

/-- The automaton of a pattern whose ranges are in order has one accepting state, which is not the
start. All states are on paths from the start to this state. No edge leads to the start or leaves the
accepting state, and the edges that leave another state either read characters and lead to one state,
or they are silent and there are one or two of them. The ranges of a pattern that is read from a text
are in order. -/
theorem compile_shape (p : Pattern) :
    (∀ text, parse text = .ok p → p.Ordered) ∧
    ∀ n, p.Ordered → p.compile = .ok n → ∃ a, (∀ q, q ∈ n.accepting ↔ q = a) ∧
      n.start < n.numStates ∧ n.start ≠ a ∧
      (∀ q < n.numStates, n.Joined n.start q ∧ n.Joined q a) ∧
      (∀ e ∈ n.edges, e.target ≠ n.start ∧ e.source ≠ a) ∧
      ∀ q < n.numStates, q ≠ a → n.Orderly q := by
  refine ⟨fun text parsed => (spells_of_readAfter parsed .nil).wellFormed.ordered,
    fun n ordered made => ?_⟩
  obtain ⟨rfl, size⟩ := eq_automaton_of_toNfa? (compile_eq_ok_iff.1 made)
  have placed := p.placed_fragment 0
  have shaped := shaped_fragment ordered 0
  have joined {q r : State} : (Nfa.ofEdges (p.fragment 0).edges).Joined q r →
      (p.fragment 0).automaton.Joined q r := by
    rintro ⟨w, path⟩
    exact ⟨w, Fragment.path_automaton_iff.2 path⟩
  have all : (p.fragment 0).automaton.numStates = (p.fragment 0).next := by
    rw [next_fragment, Nat.zero_add, ← size]
  refine ⟨(p.fragment 0).accept, fun q => Fragment.mem_accepting_automaton,
    Nat.lt_of_lt_of_eq placed.start_lt all.symm, Nat.ne_of_lt placed.start_lt_accept,
    fun q below => ?_, fun e mem => ⟨?_, placed.stuck e mem⟩, fun q below apart => ?_⟩
  · obtain ⟨reached, exited⟩ := shaped.through q (Nat.zero_le q) (all ▸ below)
    exact ⟨joined reached, joined exited⟩
  · exact shaped.unentered e (Nfa.mem_edges_ofEdges.1 mem)
  · exact (shaped.orderly q (Nat.zero_le q) (all ▸ below) apart).congr fun e _ => Iff.rfl

theorem compile_shape_choice :
    parse "(a|[0-9])*" = .ok (star (alt (char 'a') (range '0' '9'))) ∧
    ∃ n a, (star (alt (char 'a') (range '0' '9'))).compile = .ok n ∧
      (∀ q, q ∈ n.accepting ↔ q = a) ∧ n.start < n.numStates ∧ n.start ≠ a ∧
      (∀ q < n.numStates, n.Joined n.start q ∧ n.Joined q a) ∧
      (∀ e ∈ n.edges, e.target ≠ n.start ∧ e.source ≠ a) ∧
      n.Orderly n.start ∧ ∀ q < n.numStates, q ≠ a → n.Orderly q := by
  have letter : Spells .item ['a'] (char 'a') := .plain (.literal (by decide))
  have digit : Spells .item ['[', '0', '-', '9', ']'] (range '0' '9') :=
    .plain (.bracket (by decide) (by decide) (by decide))
  have choice : Spells .item ['(', 'a', '|', '[', '0', '-', '9', ']', ')', '*']
      (star (alt (char 'a') (range '0' '9'))) :=
    .star (.plain (.group (.bar letter.one digit.one.single)))
  have parsed : parse "(a|[0-9])*" = .ok (star (alt (char 'a') (range '0' '9'))) :=
    choice.one.single.readable
  obtain ⟨n, made⟩ := exists_toNfa?_of_parse (by decide) parsed
  obtain ⟨written, shape⟩ := compile_shape (star (alt (char 'a') (range '0' '9')))
  have compiled := compile_eq_ok_iff.2 made
  obtain ⟨a, accepting, inside, apart, joined, sealed, orderly⟩ :=
    shape n (written _ parsed) compiled
  exact ⟨parsed, n, a, compiled, accepting, inside, apart, joined, sealed,
    orderly n.start inside apart, orderly⟩

end Lexing.Pattern
