set_option autoImplicit false

namespace Lexing

/-- A division of the numbers below a size into classes, given by a leader for each number: numbers
with the same leader are in the same class. No number comes before its leader. -/
structure Partition where
  leaders : Array Nat
  le : ∀ a : Nat, leaders[a]?.getD a ≤ a
  deriving DecidableEq

/-- The first of `count` numbers from `start` on that has a property. -/
def firstFrom (p : Nat → Bool) (start : Nat) : Nat → Option Nat
  | 0 => none
  | count + 1 => if p start then some start else firstFrom p (start + 1) count

theorem firstFrom_eq_find? (p : Nat → Bool) (start count : Nat) :
    firstFrom p start count = (List.range' start count).find? p := by
  induction count generalizing start with
  | zero => rfl
  | succ count ih =>
    rw [firstFrom, List.range'_succ, List.find?_cons, ih]
    cases p start <;> rfl

theorem bounds_of_firstFrom {p : Nat → Bool} {start count a : Nat}
    (h : firstFrom p start count = some a) : start ≤ a ∧ a < start + count := by
  rw [firstFrom_eq_find?] at h
  exact List.mem_range'_1.1 (List.mem_of_find?_eq_some h)

namespace Partition

def size (p : Partition) : Nat := p.leaders.size

def leader (p : Partition) (a : Nat) : Nat := p.leaders[a]?.getD a

theorem leader_le (p : Partition) (a : Nat) : p.leader a ≤ a := p.le a

theorem ext_leader {p q : Partition} (sizes : p.size = q.size)
    (same : ∀ a < p.size, p.leader a = q.leader a) : p = q := by
  obtain ⟨first, _⟩ := p
  obtain ⟨second, _⟩ := q
  have : first = second := by
    refine Array.ext sizes fun a left right => ?_
    have entries := same a left
    simpa [leader, left, right] using entries
  subst this
  rfl

def isLeader (p : Partition) (a : Nat) : Bool := p.leader a == a

/-- The numbers that lead a class, in ascending order. -/
def heads (p : Partition) : List Nat := (List.range p.size).filter p.isLeader

theorem mem_heads {p : Partition} {a : Nat} : a ∈ p.heads ↔ a < p.size ∧ p.leader a = a := by
  simp [heads, isLeader]

def isLedBy (p : Partition) (head a : Nat) : Bool := p.leader a == head

/-- The class of a leader, in ascending order. -/
def members (p : Partition) (head : Nat) : List Nat := (List.range p.size).filter (p.isLedBy head)

theorem mem_members {p : Partition} {head a : Nat} :
    a ∈ p.members head ↔ a < p.size ∧ p.leader a = head := by
  simp [members, isLedBy]

def whole (size : Nat) : Partition where
  leaders := Array.replicate size 0
  le a := by
    rw [Array.getElem?_replicate]
    split <;> simp

@[simp] theorem size_whole (size : Nat) : (whole size).size = size := Array.size_replicate

section Split

variable {κ : Type} [BEq κ]

/-- The first number from the leader on with the leader and the key of a number. -/
def leaderBy (p : Partition) (keys : Array κ) (a : Nat) : Nat :=
  let leader := p.leader a
  (firstFrom (fun b => p.leader b == leader && keys[b]? == keys[a]?) leader (a - leader)).getD a

theorem leaderBy_le (p : Partition) (keys : Array κ) (a : Nat) : p.leaderBy keys a ≤ a := by
  rw [leaderBy]
  cases found : firstFrom _ _ _ with
  | none => exact Nat.le_refl a
  | some b =>
    have bounds := bounds_of_firstFrom found
    have below := p.leader_le a
    rw [Option.getD_some]
    omega

theorem leader_le_leaderBy (p : Partition) (keys : Array κ) (a : Nat) :
    p.leader a ≤ p.leaderBy keys a := by
  rw [leaderBy]
  cases found : firstFrom _ _ _ with
  | none => exact p.leader_le a
  | some b => exact (bounds_of_firstFrom found).1

/-- Splits each class into the numbers that have the same key. -/
def split (p : Partition) (keys : Array κ) : Partition where
  leaders := (Array.range p.size).map (p.leaderBy keys)
  le a := by
    rw [Array.getElem?_map]
    by_cases inside : a < p.size
    · simpa [inside] using p.leaderBy_le keys a
    · simp [inside]

@[simp] theorem size_split (p : Partition) (keys : Array κ) : (p.split keys).size = p.size := by
  simp [size, split]

theorem leader_split {p : Partition} {keys : Array κ} {a : Nat} (inside : a < p.size) :
    (p.split keys).leader a = p.leaderBy keys a := by
  rw [leader, split, Array.getElem?_map]
  simp [inside]

def total (f : Nat → Nat) : Nat → Nat
  | 0 => 0
  | bound + 1 => total f bound + f bound

theorem total_le {f g : Nat → Nat} {bound : Nat} (le : ∀ a < bound, f a ≤ g a) :
    total f bound ≤ total g bound := by
  induction bound with
  | zero => exact Nat.le_refl 0
  | succ bound ih =>
    rw [total, total]
    exact Nat.add_le_add (ih fun a h => le a (Nat.lt_succ_of_lt h)) (le bound (Nat.lt_succ_self _))

theorem total_lt {f g : Nat → Nat} {bound b : Nat} (le : ∀ a < bound, f a ≤ g a)
    (inside : b < bound) (lt : f b < g b) : total f bound < total g bound := by
  induction bound with
  | zero => exact absurd inside (Nat.not_lt_zero b)
  | succ bound ih =>
    rw [total, total]
    have before : ∀ a < bound, f a ≤ g a := fun a h => le a (Nat.lt_succ_of_lt h)
    rcases Nat.lt_succ_iff_lt_or_eq.1 inside with earlier | rfl
    · exact Nat.add_lt_add_of_lt_of_le (ih before earlier) (le bound (Nat.lt_succ_self _))
    · exact Nat.add_lt_add_of_le_of_lt (total_le before) lt

/-- How far the numbers are above their leaders in all. -/
def slack (p : Partition) : Nat := total (fun a => a - p.leader a) p.size

theorem slack_split_lt {p : Partition} {keys : Array κ} (changed : p.split keys ≠ p) :
    (p.split keys).slack < p.slack := by
  have moved : ∃ a < p.size, p.leaderBy keys a ≠ p.leader a := by
    refine Classical.byContradiction fun none => changed (ext_leader (size_split p keys) ?_)
    intro a inside
    rw [size_split] at inside
    rw [leader_split inside]
    exact Classical.byContradiction fun h => none ⟨a, inside, h⟩
  obtain ⟨a, inside, apart⟩ := moved
  rw [slack, slack, size_split]
  refine total_lt (fun b below => ?_) inside ?_
  · rw [leader_split below]
    have := p.leader_le_leaderBy keys b
    omega
  · rw [leader_split inside]
    have := p.leader_le_leaderBy keys a
    have := p.leaderBy_le keys a
    omega

/-- Splits classes by keys until none splits any more. -/
def stabilize (p : Partition) (keys : Partition → Array κ) : Partition :=
  let finer := p.split (keys p)
  if finer = p then p else stabilize finer keys
termination_by p.slack
decreasing_by exact slack_split_lt ‹_›

@[simp] theorem size_stabilize (p : Partition) (keys : Partition → Array κ) :
    (p.stabilize keys).size = p.size := by
  fun_induction stabilize p keys with
  | case1 p finer same => rfl
  | case2 p finer changed ih => rw [ih, size_split]

/-- No class of the last partition can be split. -/
theorem split_stabilize (p : Partition) (keys : Partition → Array κ) :
    (p.stabilize keys).split (keys (p.stabilize keys)) = p.stabilize keys := by
  fun_induction stabilize p keys with
  | case1 p finer same => exact same
  | case2 p finer changed ih => exact ih

end Split

end Partition

end Lexing
