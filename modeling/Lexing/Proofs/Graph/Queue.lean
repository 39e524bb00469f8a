import Lexing.Graph

set_option autoImplicit false

namespace Lexing.Graph

variable {α : Type} [Ord α]

theorem note_append (seen : Std.TreeSet α) (first second : List α) :
    note seen (first ++ second) = note (note seen first) second := List.foldl_append

/-- The candidates at the end of a list are fresh if the ones before have not brought them up. -/
theorem fresh_append (seen : Std.TreeSet α) (first second : List α) :
    fresh seen (first ++ second) =
      fresh seen first ++ fresh (note seen (fresh seen first)) second := by
  induction first generalizing seen with
  | nil => rfl
  | cons a rest ih =>
    rw [List.cons_append, fresh, fresh]
    split
    · exact ih seen
    · rw [ih, List.cons_append]
      rfl

variable [Std.TransOrd α] [Std.LawfulEqOrd α]

theorem fresh_of_seen {seen : Std.TreeSet α} {candidates : List α}
    (old : ∀ b ∈ candidates, b ∈ seen) : fresh seen candidates = [] := by
  refine List.eq_nil_iff_forall_not_mem.2 fun b mem => ?_
  obtain ⟨candidate, new⟩ := mem_fresh.1 mem
  exact new (old b candidate)

theorem visit_nil (g : Graph α) (seen : Std.TreeSet α) : g.visit seen [] = [] := by
  rw [visit]
  rfl

/-- What follows a level, also if this is nothing. -/
theorem visit_eq_append (g : Graph α) (seen : Std.TreeSet α) (level : List α) :
    g.visit seen level = level ++ g.visit (note seen (fresh seen (g.nextAll level)))
      (fresh seen (g.nextAll level)) := by
  rw [visit]
  split
  next last => rw [List.isEmpty_iff.1 last, visit_nil, List.append_nil]
  · rfl

/-- What holds whenever a search with a queue takes a vertex. Some of the vertices that wait are the
rest of a level. The others, and those the rest will bring up, are the level after it. -/
structure Queued (g : Graph α) (roots done waiting : List α) (seen : Std.TreeSet α) : Prop where
  seen_iff : ∀ a, a ∈ seen ↔ a ∈ done ++ waiting
  nodup : (done ++ waiting).Nodup
  levels : ∃ level further, waiting = level ++ further ∧
    g.explore roots = done ++ level ++
      g.visit (note seen (fresh seen (g.nextAll level))) (further ++ fresh seen (g.nextAll level))

variable {g : Graph α} {roots done waiting : List α} {seen : Std.TreeSet α}

theorem queued_start (g : Graph α) (roots : List α) :
    Queued g roots [] (fresh ∅ roots) (note ∅ (fresh ∅ roots)) where
  seen_iff _ := mem_note_empty
  nodup := nodup_fresh ∅ roots
  levels := ⟨fresh ∅ roots, [], (List.append_nil _).symm, visit_eq_append g _ _⟩

/-- If the rest of a level is empty, the next level is on. -/
theorem Queued.exists_level {a : α} (queued : Queued g roots done (a :: waiting) seen) :
    ∃ level further, waiting = level ++ further ∧
      g.explore roots = done ++ (a :: level) ++
        g.visit (note seen (fresh seen (g.nextAll (a :: level))))
          (further ++ fresh seen (g.nextAll (a :: level))) := by
  obtain ⟨level, further, whole, listed⟩ := queued.levels
  cases level with
  | cons b level =>
    obtain ⟨rfl, rest⟩ := List.cons.inj whole
    exact ⟨level, further, rest, listed⟩
  | nil =>
    rw [List.nil_append] at whole
    refine ⟨waiting, [], (List.append_nil _).symm, ?_⟩
    rw [listed, ← whole, List.append_nil, List.nil_append, List.append_assoc, ← visit_eq_append]
    rw [show g.nextAll [] = [] from rfl, fresh, List.append_nil]
    rfl

/-- One vertex is taken from the queue. -/
theorem Queued.step {a : α} (queued : Queued g roots done (a :: waiting) seen) :
    Queued g roots (done ++ [a]) (waiting ++ fresh seen (g.next a))
      (note seen (fresh seen (g.next a))) where
  seen_iff b := by
    rw [mem_note, queued.seen_iff]
    simp only [List.mem_append, List.mem_cons, List.not_mem_nil, or_false, or_assoc]
  nodup := by
    rw [List.append_assoc, ← List.append_assoc [a], List.singleton_append, ← List.append_assoc]
    refine List.nodup_append.2 ⟨queued.nodup, nodup_fresh _ _, fun b old c new same => ?_⟩
    exact (mem_fresh.1 new).2 (same ▸ (queued.seen_iff b).2 old)
  levels := by
    obtain ⟨level, further, rfl, listed⟩ := queued.exists_level
    have successors : g.nextAll (a :: level) = g.next a ++ g.nextAll level := List.flatMap_cons
    rw [successors, fresh_append, note_append] at listed
    exact ⟨level, further ++ fresh seen (g.next a), by simp, by simpa using listed⟩

/-- Once the queue is empty, the vertices that were taken are those that exploration lists. -/
theorem Queued.explore_eq (queued : Queued g roots done [] seen) : g.explore roots = done := by
  obtain ⟨level, further, whole, listed⟩ := queued.levels
  obtain ⟨rfl, rfl⟩ := List.append_eq_nil_iff.1 whole.symm
  rw [listed, show g.nextAll [] = [] from rfl, fresh, List.append_nil, List.append_nil, visit_nil,
    List.append_nil]

end Lexing.Graph
