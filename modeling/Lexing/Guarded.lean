import Lexing.State

/- Computations on arrays that fail where they would go on with a default otherwise: at an index outside
an array, at a division by zero, at an array that is too large. A loop of such computations succeeds if
its steps do, it keeps what its steps keep, and it fails if one of them does. -/

set_option autoImplicit false

namespace Lexing

variable {α β σ : Type}

/-- An array of flags, all false. A flag takes a byte. -/
def flags? (count : Nat) : Option (Array Bool) :=
  if count < arrayBound then some (Array.replicate count false) else none

/-- Replaces the entry at an index. There must be one. -/
def write? (xs : Array α) (i : Nat) (a : α) : Option (Array α) :=
  if i < xs.size then some (xs.setIfInBounds i a) else none

theorem write?_of_lt {xs : Array α} {i : Nat} (inside : i < xs.size) (a : α) :
    write? xs i a = some (xs.setIfInBounds i a) := if_pos inside

theorem write?_eq_some {xs ys : Array α} {i : Nat} {a : α} (written : write? xs i a = some ys) :
    i < xs.size ∧ ys = xs.setIfInBounds i a := by
  unfold write? at written
  split at written
  next inside => exact ⟨inside, (Option.some.inj written).symm⟩
  · cases written

section Count

variable [BEq α] [LawfulBEq α]

/-- Replacing a value by another one makes one less of it. -/
theorem count_setIfInBounds {xs : Array α} {i : Nat} {a b : α} (entry : xs[i]? = some a)
    (other : b ≠ a) : (xs.setIfInBounds i b).count a + 1 = xs.count a := by
  obtain ⟨inside, same⟩ := Array.getElem?_eq_some_iff.1 entry
  have present : 0 < xs.count a := Array.count_pos_iff.2 (same ▸ Array.getElem_mem inside)
  rw [Array.setIfInBounds, dif_pos inside, Array.count_set, same, beq_self_eq_true,
    beq_false_of_ne other, if_pos rfl, if_neg Bool.false_ne_true, Nat.add_zero]
  exact Nat.sub_add_cancel present

theorem count_setIfInBounds_le (xs : Array α) (i : Nat) {a b : α} (other : b ≠ a) :
    (xs.setIfInBounds i b).count a ≤ xs.count a := by
  unfold Array.setIfInBounds
  split
  · rw [Array.count_set, beq_false_of_ne other, if_neg Bool.false_ne_true, Nat.add_zero]
    exact Nat.sub_le _ _
  · exact Nat.le_refl _

end Count

/-- Quotient and remainder. The divisor must not be zero. -/
def divMod? (a b : Nat) : Option (Nat × Nat) := if b = 0 then none else some (a / b, a % b)

theorem divMod?_of_pos {a b : Nat} (pos : 0 < b) : divMod? a b = some (a / b, a % b) :=
  if_neg (Nat.ne_of_gt pos)

theorem mapM_eq_some_map {f : α → Option β} {g : α → β} {l : List α}
    (found : ∀ a ∈ l, f a = some (g a)) : l.mapM f = some (l.map g) := by
  induction l with
  | nil => rfl
  | cons a rest ih =>
    rw [List.mapM_cons, found a List.mem_cons_self, ih fun b mem => found b (List.mem_cons_of_mem a mem)]
    rfl

theorem anyM_eq_some_any {f : α → Option Bool} {g : α → Bool} {l : List α}
    (found : ∀ a ∈ l, f a = some (g a)) : l.anyM f = some (l.any g) := by
  induction l with
  | nil => rfl
  | cons a rest ih =>
    rw [List.anyM, found a List.mem_cons_self, List.any_cons]
    cases g a with
    | true => rfl
    | false => exact ih fun b mem => found b (List.mem_cons_of_mem a mem)

theorem filterM_eq_some_filter {f : α → Option Bool} {g : α → Bool} {l : List α}
    (found : ∀ a ∈ l, f a = some (g a)) : l.filterM f = some (l.filter g) := by
  -- The members that are kept so far are held in reverse.
  have collected : ∀ kept, l.filterAuxM f kept = some ((l.filter g).reverse ++ kept) := by
    induction l with
    | nil => exact fun kept => rfl
    | cons a rest ih =>
      intro kept
      rw [List.filterAuxM, found a List.mem_cons_self, List.filter_cons]
      show rest.filterAuxM f (cond (g a) (a :: kept) kept) = _
      rw [ih fun b mem => found b (List.mem_cons_of_mem a mem)]
      cases g a <;> simp
  unfold List.filterM
  rw [collected]
  simp

/-- What the steps of a loop keep, the whole loop keeps, and it fails at none of them. The invariant
may speak about the items that are done. -/
theorem foldlM_spec {step : σ → α → Option σ} (inv : List α → σ → Prop) {l : List α} {s : σ}
    (init : inv [] s)
    (kept : ∀ done a rest s, l = done ++ a :: rest → inv done s →
      ∃ t, step s a = some t ∧ inv (done ++ [a]) t) :
    ∃ t, l.foldlM step s = some t ∧ inv l t := by
  suffices h : ∀ rest done s, l = done ++ rest → inv done s →
      ∃ t, rest.foldlM step s = some t ∧ inv l t from h l [] s rfl init
  intro rest
  induction rest with
  | nil =>
    intro done s whole before
    rw [List.append_nil] at whole
    exact ⟨s, rfl, whole ▸ before⟩
  | cons a rest ih =>
    intro done s whole before
    obtain ⟨t, stepped, after⟩ := kept done a rest s whole before
    obtain ⟨u, finished, last⟩ := ih (done ++ [a]) t (by simp [whole]) after
    refine ⟨u, ?_, last⟩
    rw [List.foldlM_cons, stepped]
    exact finished

/-- The same for a loop over consecutive numbers, with an invariant that speaks about the next one. -/
theorem foldlM_range'_spec {step : σ → Nat → Option σ} (inv : Nat → σ → Prop) {first count : Nat}
    {s : σ} (init : inv first s)
    (kept : ∀ i s, first ≤ i → i < first + count → inv i s →
      ∃ t, step s i = some t ∧ inv (i + 1) t) :
    ∃ t, (List.range' first count).foldlM step s = some t ∧ inv (first + count) t := by
  induction count generalizing first s with
  | zero => exact ⟨s, rfl, init⟩
  | succ count ih =>
    obtain ⟨t, stepped, after⟩ := kept first s (Nat.le_refl first) (by omega) init
    obtain ⟨u, finished, last⟩ := ih after fun i s lower upper => kept i s (by omega) (by omega)
    refine ⟨u, ?_, ?_⟩
    · rw [List.range'_succ, List.foldlM_cons, stepped]
      exact finished
    · rwa [Nat.add_right_comm, Nat.add_assoc] at last

theorem foldlM_range_spec {step : σ → Nat → Option σ} (inv : Nat → σ → Prop) {bound : Nat} {s : σ}
    (init : inv 0 s)
    (kept : ∀ i < bound, ∀ s, inv i s → ∃ t, step s i = some t ∧ inv (i + 1) t) :
    ∃ t, (List.range bound).foldlM step s = some t ∧ inv bound t := by
  rw [List.range_eq_range']
  have loop : ∃ t, (List.range' 0 bound).foldlM step s = some t ∧ inv (0 + bound) t :=
    foldlM_range'_spec inv init fun i s _ upper => kept i (by omega) s
  rwa [Nat.zero_add] at loop

/-- What each successful step of a loop keeps, the loop keeps if it succeeds. -/
theorem foldlM_keeps {step : σ → α → Option σ} (inv : σ → Prop) {l : List α}
    (kept : ∀ s, ∀ a ∈ l, ∀ t, step s a = some t → inv s → inv t) {s t : σ} (init : inv s)
    (looped : l.foldlM step s = some t) : inv t := by
  induction l generalizing s with
  | nil => exact Option.some.inj looped ▸ init
  | cons a rest ih =>
    rw [List.foldlM_cons] at looped
    obtain ⟨u, stepped, finished⟩ := Option.bind_eq_some_iff.1 looped
    exact ih (fun s b mem => kept s b (List.mem_cons_of_mem a mem))
      (kept s a List.mem_cons_self u stepped init) finished

/-- A loop that comes upon an item at which its step fails, whatever it has done before, fails. -/
theorem foldlM_eq_none {step : σ → α → Option σ} (inv : σ → Prop) {l : List α} {a : α}
    (mem : a ∈ l) (kept : ∀ s, ∀ b ∈ l, ∀ t, step s b = some t → inv s → inv t)
    (fails : ∀ s, inv s → step s a = none) {s : σ} (init : inv s) : l.foldlM step s = none := by
  induction l generalizing s with
  | nil => cases mem
  | cons b rest ih =>
    rw [List.foldlM_cons]
    cases stepped : step s b with
    | none => rfl
    | some t =>
      rcases List.mem_cons.1 mem with rfl | later
      · rw [fails s init] at stepped
        cases stepped
      · exact ih later (fun s c mem => kept s c (List.mem_cons_of_mem b mem))
          (kept s b List.mem_cons_self t stepped init)

end Lexing
