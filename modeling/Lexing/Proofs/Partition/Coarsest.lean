import Lexing.Partition

set_option autoImplicit false

namespace Lexing.Partition

def Same (p : Partition) (a b : Nat) : Prop := p.leader a = p.leader b

def Proper (p : Partition) : Prop := ∀ a < p.size, p.leader (p.leader a) = p.leader a

theorem leader_whole {size a : Nat} (inside : a < size) : (whole size).leader a = 0 := by
  simp [leader, whole, inside]

theorem same_whole {size a b : Nat} (left : a < size) (right : b < size) :
    (whole size).Same a b := (leader_whole left).trans (leader_whole right).symm

variable {κ : Type} [BEq κ] [LawfulBEq κ]

/-- The leader by keys has the same leader and key as the number itself. -/
theorem leaderBy_same (p : Partition) (keys : Array κ) (a : Nat) :
    p.leader (p.leaderBy keys a) = p.leader a ∧ keys[p.leaderBy keys a]? = keys[a]? := by
  rw [leaderBy, firstFrom_eq_find?]
  cases found : List.find? _ _ with
  | none => exact ⟨rfl, rfl⟩
  | some b => simpa using List.find?_some found

/-- It is the least number of that kind. -/
theorem leaderBy_le_of_same {p : Partition} {keys : Array κ} {a c : Nat}
    (leaders : p.leader c = p.leader a) (key : keys[c]? = keys[a]?) : p.leaderBy keys a ≤ c := by
  have lower : p.leader a ≤ c := leaders ▸ p.leader_le c
  have sat : (p.leader c == p.leader a && keys[c]? == keys[a]?) = true := by simp [leaders, key]
  rw [leaderBy, firstFrom_eq_find?]
  cases found : List.find? _ _ with
  | none =>
    rw [Option.getD_none]
    by_cases below : c < a
    · have misses := List.find?_range'_eq_none.1 found c lower (by omega)
      rw [sat] at misses
      cases misses
    · exact Nat.le_of_not_lt below
  | some b =>
    rw [Option.getD_some]
    by_cases below : c < b
    · have misses := (List.find?_range'_eq_some.1 found).2.2 c lower below
      rw [sat] at misses
      cases misses
    · exact Nat.le_of_not_lt below

theorem leaderBy_eq_iff {p : Partition} {keys : Array κ} {a b : Nat} :
    p.leaderBy keys a = p.leaderBy keys b ↔ p.Same a b ∧ keys[a]? = keys[b]? := by
  obtain ⟨leaderA, keyA⟩ := p.leaderBy_same keys a
  obtain ⟨leaderB, keyB⟩ := p.leaderBy_same keys b
  constructor
  · intro same
    rw [same] at leaderA keyA
    exact ⟨leaderA.symm.trans leaderB, keyA.symm.trans keyB⟩
  · rintro ⟨leaders, key⟩
    refine Nat.le_antisymm ?_ ?_
    · exact leaderBy_le_of_same (leaderB.trans leaders.symm) (keyB.trans key.symm)
    · exact leaderBy_le_of_same (leaderA.trans leaders) (keyA.trans key)

theorem same_split {p : Partition} {keys : Array κ} {a b : Nat} (left : a < p.size)
    (right : b < p.size) : (p.split keys).Same a b ↔ p.Same a b ∧ keys[a]? = keys[b]? := by
  rw [Same, leader_split left, leader_split right, leaderBy_eq_iff]

theorem proper_split (p : Partition) (keys : Array κ) : (p.split keys).Proper := by
  intro a inside
  rw [size_split] at inside
  obtain ⟨leader, key⟩ := p.leaderBy_same keys a
  have below : p.leaderBy keys a < p.size := Nat.lt_of_le_of_lt (p.leaderBy_le keys a) inside
  rw [leader_split inside, leader_split below, leaderBy_eq_iff]
  exact ⟨leader, key⟩

theorem proper_stabilize {p : Partition} (proper : p.Proper) (keys : Partition → Array κ) :
    (p.stabilize keys).Proper := by
  fun_induction stabilize p keys with
  | case1 p finer same => exact proper
  | case2 p finer changed ih => exact ih (p.proper_split (keys p))

/-- Refinement only separates. -/
theorem same_of_same_stabilize {p : Partition} {keys : Partition → Array κ} {a b : Nat}
    (left : a < p.size) (right : b < p.size) (same : (p.stabilize keys).Same a b) :
    p.Same a b := by
  fun_induction stabilize p keys with
  | case1 p finer stable => exact same
  | case2 p finer changed ih =>
    have before : finer.Same a b := ih (by rwa [size_split]) (by rwa [size_split]) same
    exact ((same_split left right).1 before).1

/-- Numbers of one class of the last partition have the same key by it. -/
theorem key_eq_of_same_stabilize {p : Partition} {keys : Partition → Array κ} {a b : Nat}
    (left : a < p.size) (right : b < p.size) (same : (p.stabilize keys).Same a b) :
    (keys (p.stabilize keys))[a]? = (keys (p.stabilize keys))[b]? := by
  rw [← size_stabilize p keys] at left right
  rw [← split_stabilize] at same
  exact ((same_split left right).1 same).2

/-- A relation is kept if it holds only within classes of the first partition and if keys respect it
as long as classes do. -/
theorem same_stabilize {p : Partition} {keys : Partition → Array κ} {related : Nat → Nat → Prop}
    (start : ∀ a < p.size, ∀ b < p.size, related a b → p.Same a b)
    (respects : ∀ q : Partition, q.size = p.size →
      (∀ a < p.size, ∀ b < p.size, related a b → q.Same a b) →
      ∀ a < p.size, ∀ b < p.size, related a b → (keys q)[a]? = (keys q)[b]?)
    {a b : Nat} (left : a < p.size) (right : b < p.size) (given : related a b) :
    (p.stabilize keys).Same a b := by
  fun_induction stabilize p keys with
  | case1 p finer stable => exact start a left b right given
  | case2 p finer changed ih =>
    have sizes : finer.size = p.size := size_split p (keys p)
    rw [sizes] at ih
    refine ih (fun c inC d inD rel => ?_) respects left right
    exact (same_split inC inD).2 ⟨start c inC d inD rel, respects p rfl start c inC d inD rel⟩

end Lexing.Partition
