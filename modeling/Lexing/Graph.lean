import Lexing.Grouped
import Std.Data.TreeSet

set_option autoImplicit false

namespace Lexing

/-- A directed graph. There may be infinitely many vertices, but only finitely many of them are
successors of a vertex. -/
structure Graph (α : Type) where
  next : α → List α
  finite : ∃ targets : List α, ∀ a, ∀ b ∈ next a, b ∈ targets

namespace Graph

variable {α : Type}

/-- The vertices at the end of a walk that starts at one of the roots. -/
inductive Reachable (g : Graph α) (roots : List α) : α → Prop where
  | root {a : α} : a ∈ roots → Reachable g roots a
  | step {a b : α} : Reachable g roots a → b ∈ g.next a → Reachable g roots b

theorem Reachable.mono {g : Graph α} {roots more : List α} {a : α}
    (sub : ∀ b ∈ roots, b ∈ more) (ha : g.Reachable roots a) : g.Reachable more a := by
  induction ha with
  | root h => exact .root (sub _ h)
  | step _ edge ih => exact ih.step edge

/-- A walk in a graph is one in every graph with as many edges or more. -/
theorem Reachable.imp {g h : Graph α} {roots : List α} {a : α}
    (sub : ∀ b, ∀ c ∈ g.next b, c ∈ h.next b) (ha : g.Reachable roots a) : h.Reachable roots a := by
  induction ha with
  | root h => exact .root h
  | step _ edge ih => exact ih.step (sub _ _ edge)

def nextAll (g : Graph α) (level : List α) : List α := level.flatMap g.next

theorem mem_nextAll {g : Graph α} {level : List α} {b : α} :
    b ∈ g.nextAll level ↔ ∃ a ∈ level, b ∈ g.next a := List.mem_flatMap

variable [Ord α]

section Fresh

variable [Std.TransOrd α] [Std.LawfulEqOrd α]

def ofPairs [DecidableEq α] (pairs : List (α × α)) : Graph α :=
  let targets := grouped pairs
  { next := fun a => targets.getD a []
    finite := ⟨pairs.map Prod.snd, fun a b edge => by
      rw [getD_grouped, mem_attached] at edge
      exact List.mem_map.2 ⟨_, edge, rfl⟩⟩ }

theorem mem_next_ofPairs [DecidableEq α] {pairs : List (α × α)} {a b : α} :
    b ∈ (ofPairs pairs).next a ↔ (a, b) ∈ pairs := by
  rw [← mem_attached, ← getD_grouped]
  rfl

/-- The candidates that have not been seen yet, in order and each once. -/
def fresh (seen : Std.TreeSet α) : List α → List α
  | [] => []
  | b :: rest => if b ∈ seen then fresh seen rest else b :: fresh (seen.insert b) rest

omit [Std.TransOrd α] [Std.LawfulEqOrd α] in
theorem fresh_singleton {seen : Std.TreeSet α} {a : α} (new : a ∉ seen) :
    fresh seen [a] = [a] := by
  rw [fresh, if_neg new]
  rfl

theorem mem_fresh {b : α} {seen : Std.TreeSet α} {candidates : List α} :
    b ∈ fresh seen candidates ↔ b ∈ candidates ∧ b ∉ seen := by
  induction candidates generalizing seen with
  | nil => simp [fresh]
  | cons c rest ih =>
    rw [fresh]
    split
    next old =>
      rw [ih, List.mem_cons]
      exact ⟨fun ⟨h, new⟩ => ⟨.inr h, new⟩,
        fun ⟨h, new⟩ => ⟨h.resolve_left fun e => new (e ▸ old), new⟩⟩
    next new =>
      rw [List.mem_cons, List.mem_cons, ih, Std.TreeSet.mem_insert,
        Std.LawfulEqCmp.compare_eq_iff_eq, not_or]
      by_cases same : b = c
      · simp [same, new]
      · simp [same, Ne.symm same]

theorem nodup_fresh (seen : Std.TreeSet α) (candidates : List α) :
    (fresh seen candidates).Nodup := by
  induction candidates generalizing seen with
  | nil => exact List.nodup_nil
  | cons c rest ih =>
    rw [fresh]
    split
    · exact ih seen
    · exact List.nodup_cons.2 ⟨fun h => (mem_fresh.1 h).2 Std.TreeSet.mem_insert_self, ih _⟩

def note (seen : Std.TreeSet α) (new : List α) : Std.TreeSet α := new.foldl .insert seen

theorem mem_note {b : α} {seen : Std.TreeSet α} {new : List α} :
    b ∈ note seen new ↔ b ∈ seen ∨ b ∈ new := by
  rw [note]
  induction new generalizing seen with
  | nil => simp
  | cons c rest ih =>
    rw [List.foldl_cons, ih, Std.TreeSet.mem_insert, Std.LawfulEqCmp.compare_eq_iff_eq,
      List.mem_cons, or_comm (a := c = b), or_assoc, eq_comm (a := c)]

/-- How many of the possible successors have not been seen. -/
def unseen (targets : List α) (seen : Std.TreeSet α) : Nat := (targets.filter (· ∉ seen)).length

theorem unseen_note_lt {targets new : List α} {seen : Std.TreeSet α} {b : α} (target : b ∈ targets)
    (mem : b ∈ new) (absent : b ∉ seen) : unseen targets (note seen new) < unseen targets seen := by
  have split : targets.filter (· ∉ note seen new) =
      (targets.filter (· ∉ seen)).filter (· ∉ note seen new) := by
    rw [List.filter_filter]
    refine List.filter_congr fun a _ => ?_
    by_cases old : a ∈ seen <;> simp [mem_note, old]
  rw [unseen, unseen, split, List.length_filter_lt_length_iff_exists]
  exact ⟨b, by simp [target, absent], by simp [mem_note, mem]⟩

end Fresh

/-- Lists the vertices of a level, then those one step further that have not been seen yet, and so
on. -/
def visit [Std.TransOrd α] [Std.LawfulEqOrd α] (g : Graph α) (seen : Std.TreeSet α)
    (level : List α) : List α :=
  let new := fresh seen (g.nextAll level)
  if new.isEmpty then level else level ++ visit g (note seen new) new
termination_by unseen g.finite.choose seen
decreasing_by
  obtain ⟨b, mem⟩ := List.exists_mem_of_ne_nil new fun h => absurd (List.isEmpty_iff.2 h) ‹_›
  obtain ⟨further, absent⟩ := mem_fresh.1 mem
  obtain ⟨a, _, edge⟩ := mem_nextAll.1 further
  exact unseen_note_lt (g.finite.choose_spec a b edge) mem absent

variable [Std.TransOrd α] [Std.LawfulEqOrd α]

theorem subset_visit {g : Graph α} {seen : Std.TreeSet α} {level : List α} {a : α}
    (mem : a ∈ level) : a ∈ g.visit seen level := by
  rw [visit]
  split
  · exact mem
  · exact List.mem_append_left _ mem

theorem reachable_of_mem_visit {g : Graph α} {seen : Std.TreeSet α} {level : List α} {a : α}
    (mem : a ∈ g.visit seen level) : g.Reachable level a := by
  fun_induction visit g seen level with
  | case1 seen level new last => exact .root mem
  | case2 seen level new more ih =>
    rcases List.mem_append.1 mem with h | h
    · exact .root h
    · have advance : ∀ b, g.Reachable new b → g.Reachable level b := by
        intro b walk
        induction walk with
        | root h =>
          obtain ⟨c, inLevel, edge⟩ := mem_nextAll.1 (mem_fresh.1 h).1
          exact (Reachable.root inLevel).step edge
        | step _ edge before => exact before.step edge
      exact advance a (ih h)

theorem seen_or_fresh {g : Graph α} {seen : Std.TreeSet α} {level : List α} {a b : α}
    (mem : a ∈ level) (edge : b ∈ g.next a) : b ∈ seen ∨ b ∈ fresh seen (g.nextAll level) := by
  by_cases old : b ∈ seen
  · exact .inl old
  · exact .inr (mem_fresh.2 ⟨mem_nextAll.2 ⟨a, mem, edge⟩, old⟩)

/-- If the successors of all that was seen before the level have been seen, then no successor is
left out. -/
theorem mem_visit_of_edge {g : Graph α} {seen : Std.TreeSet α} {level : List α}
    (closed : ∀ a ∈ seen, a ∉ level → ∀ b ∈ g.next a, b ∈ seen) {a b : α}
    (mem : a ∈ seen ∨ a ∈ g.visit seen level) (edge : b ∈ g.next a) :
    b ∈ seen ∨ b ∈ g.visit seen level := by
  fun_induction visit g seen level with
  | case1 seen level new last =>
    by_cases inLevel : a ∈ level
    · refine .inl ((seen_or_fresh inLevel edge).resolve_right fun found => ?_)
      exact List.ne_nil_of_mem found (List.isEmpty_iff.1 last)
    · exact .inl (closed a (mem.resolve_right inLevel) inLevel b edge)
  | case2 seen level new more ih =>
    have later : b ∈ new → b ∈ visit g (note seen new) new := subset_visit
    have closed' : ∀ c ∈ note seen new, c ∉ new → ∀ d ∈ g.next c, d ∈ note seen new := by
      intro c noted old d onward
      by_cases inLevel : c ∈ level
      · exact mem_note.2 (seen_or_fresh inLevel onward)
      · exact mem_note.2 (.inl (closed c ((mem_note.1 noted).resolve_right old) inLevel d onward))
    have further : a ∈ note seen new ∨ a ∈ visit g (note seen new) new →
        b ∈ seen ∨ b ∈ visit g (note seen new) new := by
      intro h
      rcases ih closed' h with h | h
      · exact (mem_note.1 h).imp_right later
      · exact .inr h
    refine Or.imp_right (List.mem_append_right _) ?_
    rcases mem with h | h
    · exact further (.inl (mem_note.2 (.inl h)))
    · rcases List.mem_append.1 h with h | h
      · exact (seen_or_fresh h edge).imp_right later
      · exact further (.inr h)

theorem nodup_visit {g : Graph α} {seen : Std.TreeSet α} {level : List α} (nodup : level.Nodup)
    (known : ∀ a ∈ level, a ∈ seen) :
    (g.visit seen level).Nodup ∧ ∀ a ∈ g.visit seen level, a ∈ seen → a ∈ level := by
  fun_induction visit g seen level with
  | case1 seen level new last => exact ⟨nodup, fun a mem _ => mem⟩
  | case2 seen level new more ih =>
    obtain ⟨rest, old⟩ := ih (nodup_fresh _ _) fun a mem => mem_note.2 (.inr mem)
    have later : ∀ a ∈ visit g (note seen new) new, a ∉ seen := by
      intro a mem h
      exact (mem_fresh.1 (old a mem (mem_note.2 (.inl h)))).2 h
    refine ⟨List.nodup_append.2 ⟨nodup, rest, fun a left b right same => ?_⟩, fun a mem h => ?_⟩
    · exact later b right (same ▸ known a left)
    · exact (List.mem_append.1 mem).resolve_right fun right => later a right h

/-- All vertices that can be reached from the roots, in breadth-first order. -/
def explore (g : Graph α) (roots : List α) : List α :=
  let level := fresh ∅ roots
  g.visit (note ∅ level) level

theorem mem_note_empty {a : α} {new : List α} : a ∈ note ∅ new ↔ a ∈ new := by
  rw [mem_note]
  exact ⟨fun h => h.resolve_left Std.TreeSet.not_mem_emptyc, .inr⟩

theorem mem_fresh_empty {a : α} {candidates : List α} :
    a ∈ fresh ∅ candidates ↔ a ∈ candidates := by
  rw [mem_fresh]
  exact ⟨And.left, fun h => ⟨h, Std.TreeSet.not_mem_emptyc⟩⟩

theorem nodup_explore (g : Graph α) (roots : List α) : (g.explore roots).Nodup :=
  (nodup_visit (nodup_fresh ∅ roots) fun _ mem => mem_note_empty.2 mem).1

/-- Exploration finds exactly what can be reached. -/
theorem mem_explore {g : Graph α} {roots : List α} {a : α} :
    a ∈ g.explore roots ↔ g.Reachable roots a := by
  rw [explore]
  constructor
  · intro mem
    exact (reachable_of_mem_visit mem).mono fun b h => mem_fresh_empty.1 h
  · intro walk
    induction walk with
    | root h => exact subset_visit (mem_fresh_empty.2 h)
    | step _ edge ih =>
      have seen := mem_visit_of_edge (fun b noted absent => absurd (mem_note_empty.1 noted) absent)
        (.inr ih) edge
      exact seen.elim (fun noted => subset_visit (mem_note_empty.1 noted)) id

end Graph

end Lexing
