import Std.Data.TreeSet

set_option autoImplicit false

namespace Lexing

/-- A finite set, held as the list of its members in strictly ascending order. -/
structure SortedSet (α : Type) [Ord α] where
  toList : List α
  ascending : toList.Pairwise (fun a b => compare a b = .lt)

namespace SortedSet

variable {α : Type} [Ord α]

instance [DecidableEq α] : DecidableEq (SortedSet α) := fun s t =>
  decidable_of_iff ((s.toList == t.toList) = true)
    ⟨fun h => by cases s; cases t; cases eq_of_beq h; rfl, fun h => h ▸ beq_self_eq_true _⟩

/-- Sets are ordered by their least members, then by the next ones, and so on. -/
instance : Ord (SortedSet α) where
  compare := compareOn toList

instance [Std.TransOrd α] : Std.TransOrd (SortedSet α) :=
  inferInstanceAs (Std.TransCmp (compareOn toList))

instance [Std.LawfulEqOrd α] : Std.LawfulEqOrd (SortedSet α) where
  compare_self {s} := (Std.ReflOrd.compare_self : compare s.toList s.toList = .eq)
  eq_of_compare {s t} h := by
    have same : s.toList = t.toList := Std.LawfulEqOrd.eq_of_compare h
    cases s
    cases t
    cases same
    rfl

instance : Membership α (SortedSet α) where
  mem s a := a ∈ s.toList

theorem mem_def {a : α} {s : SortedSet α} : a ∈ s ↔ a ∈ s.toList := Iff.rfl

instance [DecidableEq α] (a : α) (s : SortedSet α) : Decidable (a ∈ s) :=
  inferInstanceAs (Decidable (a ∈ s.toList))

def empty : SortedSet α := ⟨[], .nil⟩

instance : EmptyCollection (SortedSet α) := ⟨empty⟩

instance : Inhabited (SortedSet α) := ⟨∅⟩

@[simp] theorem toList_empty : (∅ : SortedSet α).toList = [] := rfl

@[simp] theorem not_mem_empty (a : α) : a ∉ (∅ : SortedSet α) := List.not_mem_nil

def isEmpty (s : SortedSet α) : Bool := s.toList.isEmpty

def size (s : SortedSet α) : Nat := s.toList.length

def index? [DecidableEq α] (s : SortedSet α) (a : α) : Option Nat := s.toList.idxOf? a

/-- Puts a value before the first greater one of an ascending list, unless it is there already. -/
def place (a : α) : List α → List α
  | [] => [a]
  | b :: rest =>
    match compare a b with
    | .lt => a :: b :: rest
    | .eq => b :: rest
    | .gt => b :: place a rest

theorem index?_eq_some {s : SortedSet α} [DecidableEq α] {a : α} {i : Nat}
    (h : s.index? a = some i) : s.toList[i]? = some a := by
  rw [index?, List.idxOf?_eq_some_iff] at h
  obtain ⟨inside, same, _⟩ := h
  rw [List.getElem?_eq_getElem inside, same]

section Lawful

variable [Std.LawfulEqOrd α]

theorem nodup_toList (s : SortedSet α) : s.toList.Nodup := by
  refine s.ascending.imp fun {a b} below same => ?_
  rw [same, Std.ReflOrd.compare_self] at below
  cases below

theorem index?_toList_getElem [DecidableEq α] (s : SortedSet α) (i : Nat)
    (h : i < s.toList.length) : s.index? s.toList[i] = some i := by
  rw [index?, List.idxOf?_eq_some_iff]
  refine ⟨h, rfl, fun j below => ?_⟩
  have apart := List.pairwise_iff_getElem.1 s.nodup_toList j i (by omega) h below
  simpa using apart

theorem mem_place {a b : α} {l : List α} : a ∈ place b l ↔ a = b ∨ a ∈ l := by
  induction l with
  | nil => simp [place]
  | cons c rest ih =>
    rw [place]
    split
    · simp
    next same =>
      have := Std.LawfulEqOrd.eq_of_compare same
      simp [this]
    · simp only [List.mem_cons, ih]
      exact ⟨fun h => by rcases h with h | h | h <;> simp [h],
        fun h => by rcases h with h | h | h <;> simp [h]⟩

variable [Std.TransOrd α]

theorem place_ascending {a : α} {l : List α}
    (h : l.Pairwise (fun a b => compare a b = .lt)) :
    (place a l).Pairwise (fun a b => compare a b = .lt) := by
  induction l with
  | nil => simp [place]
  | cons b rest ih =>
    rw [place]
    split
    next below =>
      refine List.pairwise_cons.2 ⟨fun c hc => ?_, h⟩
      rcases List.mem_cons.1 hc with rfl | hc
      · exact below
      · exact Std.TransCmp.lt_trans below ((List.pairwise_cons.1 h).1 c hc)
    · exact h
    next above =>
      obtain ⟨first, tail⟩ := List.pairwise_cons.1 h
      refine List.pairwise_cons.2 ⟨fun c hc => ?_, ih tail⟩
      rcases mem_place.1 hc with rfl | hc
      · exact Std.OrientedCmp.lt_of_gt above
      · exact first c hc

def insert (s : SortedSet α) (a : α) : SortedSet α :=
  ⟨place a s.toList, place_ascending s.ascending⟩

@[simp] theorem mem_insert {a b : α} {s : SortedSet α} : a ∈ s.insert b ↔ a = b ∨ a ∈ s :=
  mem_place

/-- The set of all members of a list. A search tree puts them in order. -/
def ofList (l : List α) : SortedSet α :=
  ⟨(Std.TreeSet.ofList l).toList, Std.TreeSet.ordered_toList⟩

@[simp] theorem mem_ofList {a : α} {l : List α} : a ∈ ofList l ↔ a ∈ l := by
  classical
  rw [mem_def, ofList, Std.TreeSet.mem_toList, Std.TreeSet.mem_ofList, List.contains_iff_mem]

instance : Union (SortedSet α) := ⟨fun s t => ofList (s.toList ++ t.toList)⟩

@[simp] theorem mem_union {a : α} {s t : SortedSet α} : a ∈ s ∪ t ↔ a ∈ s ∨ a ∈ t := by
  show a ∈ ofList (s.toList ++ t.toList) ↔ _
  rw [mem_ofList, List.mem_append]
  exact Iff.rfl

private theorem eq_of_ascending {l m : List α}
    (hl : l.Pairwise (fun a b => compare a b = .lt))
    (hm : m.Pairwise (fun a b => compare a b = .lt))
    (same : ∀ a, a ∈ l ↔ a ∈ m) : l = m := by
  induction l generalizing m with
  | nil =>
    cases m with
    | nil => rfl
    | cons b m => exact absurd ((same b).2 List.mem_cons_self) List.not_mem_nil
  | cons a l ih =>
    cases m with
    | nil => exact absurd ((same a).1 List.mem_cons_self) List.not_mem_nil
    | cons b m =>
      obtain ⟨firstA, tailA⟩ := List.pairwise_cons.1 hl
      obtain ⟨firstB, tailB⟩ := List.pairwise_cons.1 hm
      have irrefl : ∀ x : α, compare x x ≠ .lt := fun x h => by
        rw [Std.ReflOrd.compare_self] at h
        cases h
      have heads : a = b := by
        rcases List.mem_cons.1 ((same a).1 List.mem_cons_self) with h | h
        · exact h
        · rcases List.mem_cons.1 ((same b).2 List.mem_cons_self) with h' | h'
          · exact h'.symm
          · exact absurd (Std.TransCmp.lt_trans (firstA b h') (firstB a h)) (irrefl a)
      subst heads
      congr 1
      refine ih tailA tailB fun x => ⟨fun hx => ?_, fun hx => ?_⟩
      · rcases List.mem_cons.1 ((same x).1 (List.mem_cons_of_mem _ hx)) with h | h
        · exact absurd (h ▸ firstA x hx) (irrefl _)
        · exact h
      · rcases List.mem_cons.1 ((same x).2 (List.mem_cons_of_mem _ hx)) with h | h
        · exact absurd (h ▸ firstB x hx) (irrefl _)
        · exact h

/-- Sets with the same members are equal. -/
theorem ext {s t : SortedSet α} (same : ∀ a, a ∈ s ↔ a ∈ t) : s = t := by
  obtain ⟨l, hl⟩ := s
  obtain ⟨m, hm⟩ := t
  have : l = m := eq_of_ascending hl hm same
  subst this
  rfl

end Lawful

theorem ascending_chars (s : SortedSet Char) : s.toList.Pairwise (· < ·) :=
  s.ascending.imp fun less => compareOfLessAndEq_eq_lt.1 less

end SortedSet

end Lexing
