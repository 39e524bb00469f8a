import Lexing.Graph
import Mathlib.Data.List.Induction
import Mathlib.Data.List.Shortlex

/- The order in which exploration finds the vertices of a graph whose edges carry letters, where the
edges that leave a vertex are listed by letter. If one vertex is found before another, then for every
word that leads to the other, an earlier word leads to the one. Shorter words are earlier, and words
of one length are in alphabetical order. -/

set_option autoImplicit false

namespace Lexing.Graph

section Words

variable {α β : Type} (letters : List β) (move : α → β → α) (root : α)

/-- A word leads from the root to a vertex. -/
def Arrives (w : List β) (a : α) : Prop := (∀ c ∈ w, c ∈ letters) ∧ w.foldl move root = a

/-- For every word that leads to the second vertex, an earlier one leads to the first. -/
def Before (r : β → β → Prop) (a b : α) : Prop :=
  ∀ u, Arrives letters move root u b → ∃ w, Arrives letters move root w a ∧ List.Shortlex r w u

variable {letters : List β} {move : α → β → α} {root : α}

theorem arrives_nil_iff {a : α} : Arrives letters move root [] a ↔ root = a := by
  simp [Arrives]

theorem Arrives.snoc {w : List β} {a : α} {c : β} (arrives : Arrives letters move root w a)
    (letter : c ∈ letters) : Arrives letters move root (w ++ [c]) (move a c) := by
  obtain ⟨known, rfl⟩ := arrives
  refine ⟨fun d mem => ?_, List.foldl_concat ..⟩
  rcases List.mem_append.1 mem with old | new
  · exact known d old
  · exact List.mem_singleton.1 new ▸ letter

theorem Arrives.unsnoc {w : List β} {b : α} {c : β}
    (arrives : Arrives letters move root (w ++ [c]) b) :
    ∃ a, Arrives letters move root w a ∧ c ∈ letters ∧ move a c = b := by
  obtain ⟨known, rfl⟩ := arrives
  refine ⟨_, ⟨fun d mem => known d (List.mem_append_left _ mem), rfl⟩, ?_,
    (List.foldl_concat ..).symm⟩
  exact known c (List.mem_append_right _ (List.mem_singleton_self c))

theorem mem_nextAll_iff {g : Graph α} {level : List α}
    (edges : ∀ a, g.next a = letters.map (move a)) {b : α} :
    b ∈ g.nextAll level ↔ ∃ a ∈ level, ∃ c ∈ letters, move a c = b := by
  simp only [mem_nextAll, edges, List.mem_map]

/-- The edges that come before the edge with one letter from one vertex, and those that come after. -/
theorem nextAll_split {g : Graph α} (edges : ∀ a, g.next a = letters.map (move a))
    {level levelBefore levelAfter : List α} {lettersBefore lettersAfter : List β} {a : α} {c : β}
    (splitLevel : level = levelBefore ++ a :: levelAfter)
    (splitLetters : letters = lettersBefore ++ c :: lettersAfter) :
    g.nextAll level = (g.nextAll levelBefore ++ lettersBefore.map (move a)) ++
      move a c :: (lettersAfter.map (move a) ++ g.nextAll levelAfter) := by
  have row : g.next a = lettersBefore.map (move a) ++ move a c :: lettersAfter.map (move a) := by
    rw [edges, splitLetters, List.map_append, List.map_cons]
  rw [splitLevel, nextAll, List.flatMap_append, List.flatMap_cons, row]
  simp [nextAll]

theorem reachable_iff_arrives {g : Graph α} (edges : ∀ a, g.next a = letters.map (move a)) {b : α} :
    g.Reachable [root] b ↔ ∃ w, Arrives letters move root w b := by
  constructor
  · intro walk
    induction walk with
    | root mem => exact ⟨[], arrives_nil_iff.2 (List.mem_singleton.1 mem).symm⟩
    | step _ edge ih =>
      obtain ⟨w, arrives⟩ := ih
      rw [edges] at edge
      obtain ⟨c, letter, rfl⟩ := List.mem_map.1 edge
      exact ⟨w ++ [c], arrives.snoc letter⟩
  · rintro ⟨w, arrives⟩
    induction w using List.reverseRecOn generalizing b with
    | nil => exact .root (List.mem_singleton.2 (arrives_nil_iff.1 arrives).symm)
    | append_singleton w c ih =>
      obtain ⟨a, before, letter, rfl⟩ := arrives.unsnoc
      refine (ih before).step ?_
      rw [edges]
      exact List.mem_map.2 ⟨c, letter, rfl⟩

/-- The last letter decides between words that go on from one word. -/
theorem shortlex_snoc_letter {r : β → β → Prop} (w : List β) {c d : β} (less : r c d) :
    List.Shortlex r (w ++ [c]) (w ++ [d]) :=
  List.Shortlex.append_left ((List.shortlex_singleton_iff c d).2 less) w

theorem lex_append {r : β → β → Prop} {u w : List β} (less : List.Lex r w u)
    (same : w.length = u.length) (s t : List β) : List.Lex r (w ++ s) (u ++ t) := by
  induction less with
  | nil => cases same
  | rel first => exact .rel first
  | cons _ ih => exact .cons (ih (Nat.succ.inj same))

/-- Words of one length stay in order when letters are appended. -/
theorem shortlex_snoc_word {r : β → β → Prop} {u w : List β} (same : w.length = u.length)
    (less : List.Shortlex r w u) (c d : β) : List.Shortlex r (w ++ [c]) (u ++ [d]) := by
  refine List.Shortlex.of_lex (by simp [same]) ?_
  exact lex_append ((List.shortlex_iff_lex same).1 less) same [c] [d]

theorem length_le_of_shortlex {r : β → β → Prop} {u w : List β} (less : List.Shortlex r w u) :
    w.length ≤ u.length := by
  rcases List.shortlex_def.1 less with shorter | ⟨same, _⟩
  · exact Nat.le_of_lt shorter
  · exact Nat.le_of_eq same

end Words

variable {α : Type} [Ord α]

section Frontier

variable {β : Type} (letters : List β) (move : α → β → α) (root : α) (r : β → β → Prop)

/-- What holds when exploration has come to the vertices at distance `k`: those within that distance
have been seen, and the level holds those at that very distance in order. -/
structure Frontier (k : Nat) (seen : Std.TreeSet α) (level : List α) : Prop where
  seen_iff : ∀ b, b ∈ seen ↔ ∃ w, Arrives letters move root w b ∧ w.length ≤ k
  level_iff : ∀ b, b ∈ level ↔ (∃ w, Arrives letters move root w b ∧ w.length = k) ∧
    ∀ w, Arrives letters move root w b → k ≤ w.length
  ordered : level.Pairwise (Before letters move root r)

variable {letters : List β} {move : α → β → α} {root : α} {r : β → β → Prop}

variable {g : Graph α} {k : Nat} {seen : Std.TreeSet α} {level : List α}

/-- Whatever has not been seen is further away than the level. -/
theorem Frontier.lt_length (frontier : Frontier letters move root r k seen level) {b : α}
    (new : b ∉ seen) {w : List β} (arrives : Arrives letters move root w b) : k < w.length := by
  refine Nat.lt_of_not_le fun short => new ?_
  exact (frontier.seen_iff b).2 ⟨w, arrives, short⟩

/-- A word to a vertex that is new at the next distance goes through the level. -/
theorem Frontier.through (frontier : Frontier letters move root r k seen level) {b : α}
    (new : b ∉ seen) {w : List β} (arrives : Arrives letters move root w b)
    (length : w.length = k + 1) :
    ∃ u a c, w = u ++ [c] ∧ u.length = k ∧ Arrives letters move root u a ∧ a ∈ level ∧
      c ∈ letters ∧ move a c = b := by
  have nonempty : w ≠ [] := List.ne_nil_of_length_eq_add_one length
  obtain ⟨u, c, rfl⟩ : ∃ u c, w = u ++ [c] := ⟨_, _, (List.dropLast_append_getLast nonempty).symm⟩
  rw [List.length_append, List.length_singleton] at length
  obtain ⟨a, before, letter, rfl⟩ := arrives.unsnoc
  refine ⟨u, a, c, rfl, Nat.succ.inj length, before, ?_, letter, rfl⟩
  refine (frontier.level_iff a).2 ⟨⟨u, before, Nat.succ.inj length⟩, fun v other => ?_⟩
  have further := frontier.lt_length new (other.snoc letter)
  rw [List.length_append, List.length_singleton] at further
  exact Nat.le_of_lt_succ further

/-- A vertex of the level is found before a vertex that is further away. -/
theorem Frontier.before_of_length (frontier : Frontier letters move root r k seen level) {a b : α}
    (inLevel : a ∈ level) (further : ∀ w, Arrives letters move root w b → k < w.length) :
    Before letters move root r a b := by
  intro u arrives
  obtain ⟨⟨w, other, length⟩, _⟩ := (frontier.level_iff a).1 inLevel
  exact ⟨w, other, List.Shortlex.of_length_lt (length ▸ further u arrives)⟩

end Frontier

variable [Std.TransOrd α] [Std.LawfulEqOrd α]

theorem explore_singleton (g : Graph α) (root : α) :
    ∃ rest, g.explore [root] = root :: rest := by
  rw [explore, fresh_singleton Std.TreeSet.not_mem_emptyc, visit]
  split
  · exact ⟨[], rfl⟩
  · exact ⟨_, rfl⟩

/-- The fresh candidates keep the order in which they come first. -/
theorem pairwise_fresh (seen : Std.TreeSet α) (candidates : List α) :
    (fresh seen candidates).Pairwise fun a b =>
      ∀ before after, candidates = before ++ b :: after → a ∈ before := by
  induction candidates generalizing seen with
  | nil => exact .nil
  | cons c rest ih =>
    -- a fresh candidate other than `c` comes after `c`
    have shift : ∀ {known : Std.TreeSet α} {b : α} {before after : List α}, c ∈ known →
        b ∈ fresh known rest → c :: rest = before ++ b :: after →
        ∃ between, before = c :: between ∧ rest = between ++ b :: after := by
      intro known b before after old mem split
      cases before with
      | nil =>
        have same : c = b := (List.cons.inj split).1
        exact absurd (same ▸ old) (mem_fresh.1 mem).2
      | cons d between =>
        obtain ⟨rfl, rest⟩ := List.cons.inj split
        exact ⟨between, rfl, rest⟩
    have later : ∀ known, c ∈ known → (fresh known rest).Pairwise fun a b =>
        ∀ before after, c :: rest = before ++ b :: after → a ∈ before := by
      intro known old
      refine (ih known).imp_of_mem fun {a b} _ mem earlier before after split => ?_
      obtain ⟨between, rfl, rest⟩ := shift old mem split
      exact List.mem_cons_of_mem c (earlier between after rest)
    rw [fresh]
    split
    next old => exact later seen old
    next new =>
      have noted : c ∈ seen.insert c := Std.TreeSet.mem_insert_self
      refine List.pairwise_cons.2 ⟨fun b mem before after split => ?_, later _ noted⟩
      obtain ⟨between, rfl, _⟩ := shift noted mem split
      exact List.mem_cons_self

section Step

variable {β : Type} {letters : List β} {move : α → β → α} {root : α} {r : β → β → Prop}
  {g : Graph α} {k : Nat} {seen : Std.TreeSet α} {level : List α}

theorem frontier_root : Frontier letters move root r 0 (note ∅ [root]) [root] where
  seen_iff b := by
    rw [mem_note_empty, List.mem_singleton]
    constructor
    · rintro rfl
      exact ⟨[], arrives_nil_iff.2 rfl, Nat.le_refl 0⟩
    · rintro ⟨w, arrives, short⟩
      rw [List.eq_nil_of_length_eq_zero (Nat.le_zero.1 short)] at arrives
      exact (arrives_nil_iff.1 arrives).symm
  level_iff b := by
    rw [List.mem_singleton]
    constructor
    · rintro rfl
      exact ⟨⟨[], arrives_nil_iff.2 rfl, rfl⟩, fun _ _ => Nat.zero_le _⟩
    · rintro ⟨⟨w, arrives, short⟩, _⟩
      rw [List.eq_nil_of_length_eq_zero short] at arrives
      exact (arrives_nil_iff.1 arrives).symm
  ordered := List.pairwise_singleton _ _

theorem Frontier.mem_fresh_iff (edges : ∀ a, g.next a = letters.map (move a))
    (frontier : Frontier letters move root r k seen level) (b : α) :
    b ∈ fresh seen (g.nextAll level) ↔
      (∃ w, Arrives letters move root w b ∧ w.length = k + 1) ∧
        ∀ w, Arrives letters move root w b → k + 1 ≤ w.length := by
  rw [mem_fresh, mem_nextAll_iff edges]
  constructor
  · rintro ⟨⟨a, inLevel, c, letter, rfl⟩, new⟩
    obtain ⟨⟨u, arrives, length⟩, _⟩ := (frontier.level_iff a).1 inLevel
    refine ⟨⟨u ++ [c], arrives.snoc letter, ?_⟩, fun w other => frontier.lt_length new other⟩
    rw [List.length_append, length, List.length_singleton]
  · rintro ⟨⟨w, arrives, length⟩, least⟩
    have new : b ∉ seen := by
      intro old
      obtain ⟨v, other, short⟩ := (frontier.seen_iff b).1 old
      exact absurd short (Nat.not_le_of_lt (least v other))
    obtain ⟨_, a, c, _, _, _, inLevel, letter, moved⟩ := frontier.through new arrives length
    exact ⟨⟨a, inLevel, c, letter, moved⟩, new⟩

/-- A new vertex is reached before another one if it comes before all edges to the other. -/
theorem Frontier.before_of_earlier (edges : ∀ a, g.next a = letters.map (move a))
    (ascending : letters.Pairwise r) (frontier : Frontier letters move root r k seen level) {a b : α}
    (first : a ∈ fresh seen (g.nextAll level)) (second : b ∈ fresh seen (g.nextAll level))
    (earlier : ∀ before after, g.nextAll level = before ++ b :: after → a ∈ before) :
    Before letters move root r a b := by
  intro u arrives
  obtain ⟨⟨w, other, length⟩, _⟩ := (frontier.mem_fresh_iff edges a).1 first
  have least := ((frontier.mem_fresh_iff edges b).1 second).2 u arrives
  rcases Nat.lt_or_eq_of_le least with longer | same
  · exact ⟨w, other, List.Shortlex.of_length_lt (length ▸ longer)⟩
  · obtain ⟨v, p, c, rfl, short, before, inLevel, letter, moved⟩ :=
      frontier.through (mem_fresh.1 second).2 arrives same.symm
    obtain ⟨levelBefore, levelAfter, splitLevel⟩ := List.append_of_mem inLevel
    obtain ⟨lettersBefore, lettersAfter, splitLetters⟩ := List.append_of_mem letter
    have split := nextAll_split edges splitLevel splitLetters
    rw [moved] at split
    -- an earlier edge leaves an earlier vertex of the level, or the same one with an earlier letter
    rcases List.mem_append.1 (earlier _ _ split) with inBefore | inRow
    · obtain ⟨q, mem, d, letter, rfl⟩ := (mem_nextAll_iff edges).1 inBefore
      have ordered := frontier.ordered
      rw [splitLevel] at ordered
      obtain ⟨x, toX, less⟩ :=
        (List.pairwise_append.1 ordered).2.2 q mem p List.mem_cons_self v before
      have far : k ≤ x.length := by
        have inLevel : q ∈ level := splitLevel ▸ List.mem_append_left _ mem
        exact ((frontier.level_iff q).1 inLevel).2 x toX
      have near := length_le_of_shortlex less
      exact ⟨x ++ [d], toX.snoc letter, shortlex_snoc_word (by omega) less d c⟩
    · obtain ⟨d, mem, rfl⟩ := List.mem_map.1 inRow
      have letter : d ∈ letters := splitLetters ▸ List.mem_append_left _ mem
      rw [splitLetters] at ascending
      have less := (List.pairwise_append.1 ascending).2.2 d mem c List.mem_cons_self
      exact ⟨v ++ [d], before.snoc letter, shortlex_snoc_letter v less⟩

/-- One step of exploration. -/
theorem Frontier.next (edges : ∀ a, g.next a = letters.map (move a))
    (ascending : letters.Pairwise r) (frontier : Frontier letters move root r k seen level) :
    Frontier letters move root r (k + 1) (note seen (fresh seen (g.nextAll level)))
      (fresh seen (g.nextAll level)) where
  seen_iff b := by
    rw [mem_note]
    constructor
    · rintro (old | new)
      · obtain ⟨w, arrives, short⟩ := (frontier.seen_iff b).1 old
        exact ⟨w, arrives, Nat.le_succ_of_le short⟩
      · obtain ⟨⟨w, arrives, length⟩, _⟩ := (frontier.mem_fresh_iff edges b).1 new
        exact ⟨w, arrives, Nat.le_of_eq length⟩
    · rintro ⟨w, arrives, short⟩
      by_cases old : b ∈ seen
      · exact .inl old
      · have far : ∀ u, Arrives letters move root u b → k + 1 ≤ u.length :=
          fun u other => frontier.lt_length old other
        have length := Nat.le_antisymm short (far w arrives)
        exact .inr ((frontier.mem_fresh_iff edges b).2 ⟨⟨w, arrives, length⟩, far⟩)
  level_iff := frontier.mem_fresh_iff edges
  ordered := (pairwise_fresh seen (g.nextAll level)).imp_of_mem fun first second earlier =>
    frontier.before_of_earlier edges ascending first second earlier

theorem Frontier.pairwise_visit (edges : ∀ a, g.next a = letters.map (move a))
    (ascending : letters.Pairwise r) (frontier : Frontier letters move root r k seen level) :
    (g.visit seen level).Pairwise (Before letters move root r) ∧
      ∀ b ∈ g.visit seen level, ∀ w, Arrives letters move root w b → k ≤ w.length := by
  fun_induction visit g seen level generalizing k with
  | case1 seen level new =>
    exact ⟨frontier.ordered, fun b mem => ((frontier.level_iff b).1 mem).2⟩
  | case2 seen level new more =>
    rename_i ih
    have next : Frontier letters move root r (k + 1) (note seen new) new :=
      frontier.next edges ascending
    obtain ⟨ordered, further⟩ := ih next
    refine ⟨List.pairwise_append.2 ⟨frontier.ordered, ordered, fun a inLevel b later => ?_⟩, ?_⟩
    · exact frontier.before_of_length inLevel (further b later)
    · intro b mem w arrives
      rcases List.mem_append.1 mem with inLevel | later
      · exact ((frontier.level_iff b).1 inLevel).2 w arrives
      · exact Nat.le_of_lt (further b later w arrives)

/-- Exploration from one root lists the vertices in the order of the first words to them. -/
theorem pairwise_explore (edges : ∀ a, g.next a = letters.map (move a))
    (ascending : letters.Pairwise r) :
    (g.explore [root]).Pairwise (Before letters move root r) := by
  rw [explore, fresh_singleton Std.TreeSet.not_mem_emptyc]
  exact (frontier_root.pairwise_visit edges ascending).1

end Step

end Lexing.Graph
