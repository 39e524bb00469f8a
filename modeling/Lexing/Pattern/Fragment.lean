import Lexing.Nfa.Basic
import Lexing.Pattern.Basic

set_option autoImplicit false

namespace Lexing

/-- Part of an automaton, entered at `start` and left at `accept`. -/
structure Fragment where
  start : State
  accept : State
  /-- The first number above all states of the fragment. -/
  next : State
  edges : List Edge
  deriving DecidableEq, Repr

namespace Fragment

/-- Two new states, joined by one edge for each character. -/
def letters (base : State) (cs : List Char) : Fragment :=
  ⟨base, base + 1, base + 2, cs.map fun c => ⟨base, some c, base + 1⟩⟩

def seq (f g : Fragment) : Fragment :=
  ⟨f.start, g.accept, g.next, f.edges ++ g.edges ++ [⟨f.accept, none, g.start⟩]⟩

/-- Two new states around two fragments, of which the second was made last. -/
def alt (f g : Fragment) : Fragment :=
  ⟨g.next, g.next + 1, g.next + 2, f.edges ++ g.edges ++
    [⟨g.next, none, f.start⟩, ⟨g.next, none, g.start⟩,
      ⟨f.accept, none, g.next + 1⟩, ⟨g.accept, none, g.next + 1⟩]⟩

/-- Two new states around a fragment, which may be passed by (`skip`) and run again (`again`). -/
def wrap (skip again : Bool) (f : Fragment) : Fragment :=
  ⟨f.next, f.next + 1, f.next + 2, f.edges ++
    [⟨f.next, none, f.start⟩] ++
    (if skip then [⟨f.next, none, f.next + 1⟩] else []) ++
    (if again then [⟨f.accept, none, f.start⟩] else []) ++
    [⟨f.accept, none, f.next + 1⟩]⟩

/-- All states of a fragment are below its next number, which is not below `base`. -/
structure Bounded (base : Nat) (f : Fragment) : Prop where
  base_le : base ≤ f.next
  start_lt : f.start < f.next
  accept_lt : f.accept < f.next
  edge_lt : ∀ e ∈ f.edges, e.source < f.next ∧ e.target < f.next

theorem bounded_letters (base : Nat) (cs : List Char) : (letters base cs).Bounded base where
  base_le := Nat.le_add_right base 2
  start_lt := Nat.lt_add_of_pos_right (by decide)
  accept_lt := Nat.lt_succ_self (base + 1)
  edge_lt := by
    intro e mem
    obtain ⟨c, _, rfl⟩ := List.mem_map.1 mem
    simp [letters]

theorem Bounded.seq {base : Nat} {f g : Fragment} (left : f.Bounded base)
    (right : g.Bounded f.next) : (f.seq g).Bounded base where
  base_le := Nat.le_trans left.base_le right.base_le
  start_lt := Nat.lt_of_lt_of_le left.start_lt right.base_le
  accept_lt := right.accept_lt
  edge_lt := by
    intro e mem
    grind [Fragment.seq, Bounded]

theorem Bounded.alt {base : Nat} {f g : Fragment} (left : f.Bounded base)
    (right : g.Bounded f.next) : (f.alt g).Bounded base where
  base_le := by grind [Fragment.alt, Bounded]
  start_lt := by simp [Fragment.alt]
  accept_lt := by simp [Fragment.alt]
  edge_lt := by
    intro e mem
    grind [Fragment.alt, Bounded]

theorem Bounded.wrap {base : Nat} {f : Fragment} (skip again : Bool) (body : f.Bounded base) :
    (f.wrap skip again).Bounded base where
  base_le := by grind [Fragment.wrap, Bounded]
  start_lt := by simp [Fragment.wrap]
  accept_lt := by simp [Fragment.wrap]
  edge_lt := by
    intro e mem
    grind [Fragment.wrap, Bounded]

end Fragment

namespace Pattern

/-- The fragment of a pattern with the states from `base` on. -/
def fragment (base : State) : Pattern → Fragment
  | char c => .letters base [c]
  | range first last => .letters base (Text.between first last)
  | seq left right =>
    let f := left.fragment base
    f.seq (right.fragment f.next)
  | alt left right =>
    let f := left.fragment base
    f.alt (right.fragment f.next)
  | opt body => (body.fragment base).wrap true false
  | star body => (body.fragment base).wrap true true
  | plus body => (body.fragment base).wrap false true

theorem bounded_fragment (p : Pattern) (base : Nat) : (p.fragment base).Bounded base := by
  induction p generalizing base with
  | char c => exact Fragment.bounded_letters base [c]
  | range first last => exact Fragment.bounded_letters base (Text.between first last)
  | seq left right ihLeft ihRight => exact (ihLeft base).seq (ihRight _)
  | alt left right ihLeft ihRight => exact (ihLeft base).alt (ihRight _)
  | opt body ih => exact (ih base).wrap true false
  | star body ih => exact (ih base).wrap true true
  | plus body ih => exact (ih base).wrap false true

/-- The automaton of a pattern. There is none if the states run out, or if no edge mentions the
state that is to accept. -/
def toNfa? (p : Pattern) : Option Nfa :=
  let f := p.fragment 0
  if f.next ≤ maxStates then
    (Nfa.ofEdges f.edges).applyAll? [.setStart f.start, .addAccepting f.accept]
  else none

theorem built_of_toNfa? {p : Pattern} {n : Nfa} (h : p.toNfa? = some n) : n.Built := by
  rw [toNfa?] at h
  split at h
  next fits =>
    refine (Nfa.built_ofEdges fun e mem => ?_).applyAll? h
    obtain ⟨source, target⟩ := (p.bounded_fragment 0).edge_lt e mem
    exact ⟨Nat.lt_of_lt_of_le source fits, Nat.lt_of_lt_of_le target fits⟩
  · cases h

end Pattern

end Lexing
