import Lexing.Pattern.Fragment
import Lexing.Proofs.Nfa.Edges

set_option autoImplicit false

namespace Lexing

namespace Fragment

/-- A fragment whose states are numbered from `base` on, the way out last. -/
structure Placed (base : Nat) (f : Fragment) : Prop extends f.Bounded base where
  start_ge : base ≤ f.start
  start_lt_accept : f.start < f.accept
  next_eq : f.next = f.accept + 1
  edge_ge : ∀ e ∈ f.edges, base ≤ e.source ∧ base ≤ e.target
  source_lt_accept : ∀ e ∈ f.edges, e.source < f.accept

theorem Placed.accept_ge {base : Nat} {f : Fragment} (placed : f.Placed base) :
    base ≤ f.accept :=
  Nat.le_trans placed.start_ge (Nat.le_of_lt placed.start_lt_accept)

theorem placed_letters (base : Nat) (cs : List Char) : (letters base cs).Placed base where
  toBounded := bounded_letters base cs
  start_ge := Nat.le_refl base
  start_lt_accept := Nat.lt_succ_self base
  next_eq := rfl
  edge_ge e mem := by
    obtain ⟨c, _, rfl⟩ := List.mem_map.1 mem
    exact ⟨Nat.le_refl base, Nat.le_succ base⟩
  source_lt_accept e mem := by
    obtain ⟨c, _, rfl⟩ := List.mem_map.1 mem
    exact Nat.lt_succ_self base

theorem mem_edges_seq {f g : Fragment} {e : Edge} :
    e ∈ (f.seq g).edges ↔ e ∈ f.edges ∨ e ∈ g.edges ∨ e = ⟨f.accept, none, g.start⟩ := by
  simp [Fragment.seq]

theorem Placed.seq {base : Nat} {f g : Fragment} (left : f.Placed base)
    (right : g.Placed f.next) : (f.seq g).Placed base where
  toBounded := left.toBounded.seq right.toBounded
  start_ge := left.start_ge
  start_lt_accept := Nat.lt_of_lt_of_le left.start_lt right.accept_ge
  next_eq := right.next_eq
  edge_ge e mem := by
    have lower : ∀ {q : State}, f.next ≤ q → base ≤ q := Nat.le_trans left.base_le
    rcases mem_edges_seq.1 mem with mem | mem | rfl
    · exact left.edge_ge e mem
    · obtain ⟨source, target⟩ := right.edge_ge e mem
      exact ⟨lower source, lower target⟩
    · exact ⟨left.accept_ge, lower right.start_ge⟩
  source_lt_accept e mem := by
    rcases mem_edges_seq.1 mem with mem | mem | rfl
    · exact Nat.lt_of_lt_of_le (left.edge_lt e mem).1 right.accept_ge
    · exact right.source_lt_accept e mem
    · exact Nat.lt_of_lt_of_le left.accept_lt right.accept_ge

theorem mem_edges_alt {f g : Fragment} {e : Edge} :
    e ∈ (f.alt g).edges ↔ e ∈ f.edges ∨ e ∈ g.edges ∨
      e = ⟨g.next, none, f.start⟩ ∨ e = ⟨g.next, none, g.start⟩ ∨
      e = ⟨f.accept, none, g.next + 1⟩ ∨ e = ⟨g.accept, none, g.next + 1⟩ := by
  simp [Fragment.alt]

theorem Placed.alt {base : Nat} {f g : Fragment} (left : f.Placed base)
    (right : g.Placed f.next) : (f.alt g).Placed base where
  toBounded := left.toBounded.alt right.toBounded
  start_ge := Nat.le_trans left.base_le right.base_le
  start_lt_accept := Nat.lt_succ_self g.next
  next_eq := rfl
  edge_ge e mem := by
    have lower : ∀ {q : State}, f.next ≤ q → base ≤ q := Nat.le_trans left.base_le
    have fresh : base ≤ g.next := lower right.base_le
    have last : base ≤ g.next + 1 := Nat.le_succ_of_le fresh
    rcases mem_edges_alt.1 mem with mem | mem | rfl | rfl | rfl | rfl
    · exact left.edge_ge e mem
    · obtain ⟨source, target⟩ := right.edge_ge e mem
      exact ⟨lower source, lower target⟩
    · exact ⟨fresh, left.start_ge⟩
    · exact ⟨fresh, lower right.start_ge⟩
    · exact ⟨left.accept_ge, last⟩
    · exact ⟨lower right.accept_ge, last⟩
  source_lt_accept e mem := by
    rcases mem_edges_alt.1 mem with mem | mem | rfl | rfl | rfl | rfl
    · exact Nat.lt_succ_of_lt (Nat.lt_of_lt_of_le (left.edge_lt e mem).1 right.base_le)
    · exact Nat.lt_succ_of_lt (right.edge_lt e mem).1
    · exact Nat.lt_succ_self g.next
    · exact Nat.lt_succ_self g.next
    · exact Nat.lt_succ_of_lt (Nat.lt_of_lt_of_le left.accept_lt right.base_le)
    · exact Nat.lt_succ_of_lt right.accept_lt

/-- The edges that are put around a fragment to wrap it. -/
theorem mem_edges_wrap {skip again : Bool} {f : Fragment} {e : Edge} :
    e ∈ (f.wrap skip again).edges ↔
      e ∈ f.edges ∨ e = ⟨f.next, none, f.start⟩ ∨
        (skip = true ∧ e = ⟨f.next, none, f.next + 1⟩) ∨
        (again = true ∧ e = ⟨f.accept, none, f.start⟩) ∨ e = ⟨f.accept, none, f.next + 1⟩ := by
  cases skip <;> cases again <;> simp [wrap]

theorem Placed.wrap {base : Nat} {f : Fragment} (skip again : Bool) (body : f.Placed base) :
    (f.wrap skip again).Placed base where
  toBounded := body.toBounded.wrap skip again
  start_ge := body.base_le
  start_lt_accept := Nat.lt_succ_self f.next
  next_eq := rfl
  edge_ge e mem := by
    have last : base ≤ f.next + 1 := Nat.le_succ_of_le body.base_le
    rcases mem_edges_wrap.1 mem with old | rfl | ⟨_, rfl⟩ | ⟨_, rfl⟩ | rfl
    · exact body.edge_ge e old
    · exact ⟨body.base_le, body.start_ge⟩
    · exact ⟨body.base_le, last⟩
    · exact ⟨body.accept_ge, body.start_ge⟩
    · exact ⟨body.accept_ge, last⟩
  source_lt_accept e mem := by
    rcases mem_edges_wrap.1 mem with old | rfl | ⟨_, rfl⟩ | ⟨_, rfl⟩ | rfl
    · exact Nat.lt_succ_of_lt (body.edge_lt e old).1
    · exact Nat.lt_succ_self f.next
    · exact Nat.lt_succ_self f.next
    · exact Nat.lt_succ_of_lt body.accept_lt
    · exact Nat.lt_succ_of_lt body.accept_lt

/-- No edge leaves the way out. -/
theorem Placed.stuck {base : Nat} {f : Fragment} (placed : f.Placed base) :
    ∀ e ∈ (Nfa.ofEdges f.edges).edges, e.source ≠ f.accept := fun e mem =>
  Nat.ne_of_lt (placed.source_lt_accept e (Nfa.mem_edges_ofEdges.1 mem))

end Fragment

namespace Pattern

/-- The number of operators, characters and ranges of a pattern. Sequences are not counted. -/
def weight : Pattern → Nat
  | char _ => 1
  | range _ _ => 1
  | seq left right => left.weight + right.weight
  | alt left right => left.weight + right.weight + 1
  | opt body => body.weight + 1
  | star body => body.weight + 1
  | plus body => body.weight + 1

theorem placed_fragment (p : Pattern) (base : Nat) : (p.fragment base).Placed base := by
  induction p generalizing base with
  | char c => exact Fragment.placed_letters base [c]
  | range first last => exact Fragment.placed_letters base (Text.between first last)
  | seq left right ihLeft ihRight => exact (ihLeft base).seq (ihRight _)
  | alt left right ihLeft ihRight => exact (ihLeft base).alt (ihRight _)
  | opt body ih => exact (ih base).wrap true false
  | star body ih => exact (ih base).wrap true true
  | plus body ih => exact (ih base).wrap false true

/-- The fragment of a pattern has two states for each operator and each character or range. -/
theorem next_fragment (p : Pattern) (base : Nat) :
    (p.fragment base).next = base + 2 * p.weight := by
  induction p generalizing base with
  | char c => rfl
  | range first last => rfl
  | seq left right ihLeft ihRight =>
    rw [fragment, weight]
    change (right.fragment (left.fragment base).next).next = _
    rw [ihRight, ihLeft, Nat.mul_add, Nat.add_assoc]
  | alt left right ihLeft ihRight =>
    rw [fragment, weight]
    change (right.fragment (left.fragment base).next).next + 2 = _
    rw [ihRight, ihLeft, Nat.mul_succ, Nat.mul_add, ← Nat.add_assoc, ← Nat.add_assoc]
  | opt body ih =>
    change (body.fragment base).next + 2 = _
    rw [ih, weight, Nat.mul_succ, Nat.add_assoc]
  | star body ih =>
    change (body.fragment base).next + 2 = _
    rw [ih, weight, Nat.mul_succ, Nat.add_assoc]
  | plus body ih =>
    change (body.fragment base).next + 2 = _
    rw [ih, weight, Nat.mul_succ, Nat.add_assoc]

end Pattern

end Lexing
