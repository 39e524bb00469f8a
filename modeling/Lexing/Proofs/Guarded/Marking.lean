import Lexing.Dfa.Guarded.Minimize
import Lexing.Proofs.Dfa.Minimization
import Lexing.Proofs.Guarded.Table

/- The table of marks is filled without a look-up outside it, and in the end exactly the pairs of states
that some word tells apart are marked. A mark is only made for states that a word tells apart; when a
round marks nothing, no character and no word tells unmarked states apart. -/

set_option autoImplicit false

namespace Lexing.Dfa.Guarded

variable {o : Overflow} {d : Dfa} {marked : Array Bool}

theorem square_lt {width p q : Nat} (line : p < width) (column : q < width) :
    p * width + q < width * width := by
  have lines : (p + 1) * width ≤ width * width := Nat.mul_le_mul_right width line
  rw [Nat.succ_mul] at lines
  omega

theorem mem_pairs {bound p q : Nat} : (p, q) ∈ pairs bound ↔ q < p ∧ p < bound := by
  simp [pairs, and_comm]

/-- While all pairs have room in one array, no index into it overflows. -/
theorem markIndex_eq {width p q : Nat} (fits : width * width < arrayBound) (line : p < width)
    (column : q < width) : markIndex o width p q = some (p * width + q) := by
  have inside : p * width + q < wordBound := lt_wordBound (Nat.lt_trans (square_lt line column) fits)
  unfold markIndex
  rw [word?_of_lt (show p * width < wordBound by omega)]
  exact word?_of_lt inside

theorem isMarked_eq {width p q : Nat} (fits : width * width < arrayBound) (line : p < width)
    (column : q < width) : isMarked o width marked p q = marked[p * width + q]? := by
  unfold isMarked
  rw [markIndex_eq fits line column]
  rfl

def Marked (width : Nat) (marked : Array Bool) (p q : Nat) : Prop :=
  marked[p * width + q]? = some true

theorem mark_spec {width p q : Nat} (fits : width * width < arrayBound)
    (size : marked.size = width * width) (left : p < width) (right : q < width) :
    ∃ after, mark o width marked p q = some after ∧ after.size = width * width ∧
      ∀ x < width, ∀ y < width,
        Marked width after x y ↔ Marked width marked x y ∨ x = p ∧ y = q ∨ x = q ∧ y = p := by
  have first : p * width + q < marked.size := size.symm ▸ square_lt left right
  have second : q * width + p < (marked.setIfInBounds (p * width + q) true).size := by
    rw [Array.size_setIfInBounds, size]
    exact square_lt right left
  refine ⟨(marked.setIfInBounds (p * width + q) true).setIfInBounds (q * width + p) true, ?_, ?_,
    fun x inX y inY => ?_⟩
  · unfold mark
    rw [markIndex_eq fits left right, markIndex_eq fits right left]
    simp only [Option.bind_eq_bind, Option.bind_some, write?_of_lt first]
    exact write?_of_lt second true
  · rw [Array.size_setIfInBounds, Array.size_setIfInBounds, size]
  · unfold Marked
    rw [Array.getElem?_setIfInBounds, Array.getElem?_setIfInBounds, if_pos first, if_pos second]
    simp only [index_eq_iff left inY, index_eq_iff right inY]
    by_cases straight : p = x ∧ q = y
    · simp [straight]
    · by_cases crossed : q = x ∧ p = y
      · simp [crossed]
      · have apart : ¬ (x = p ∧ y = q) ∧ ¬ (x = q ∧ y = p) := by omega
        simp [straight, crossed, apart]

/-- Marks are symmetric and only made for states that some word tells apart. -/
structure Sound (d : Dfa) (marked : Array Bool) : Prop where
  fits : d.MarksFit
  size_eq : marked.size = d.numStates * d.numStates
  symm : ∀ p < d.numStates, ∀ q < d.numStates,
    Marked d.numStates marked p q → Marked d.numStates marked q p
  not_alike : ∀ p < d.numStates, ∀ q < d.numStates, Marked d.numStates marked p q → ¬ d.Alike p q

/-- No mark has been taken away. -/
def Grown (d : Dfa) (before after : Array Bool) : Prop :=
  ∀ p < d.numStates, ∀ q < d.numStates,
    Marked d.numStates before p q → Marked d.numStates after p q

theorem Sound.mark (sound : Sound d marked) {p q : State} (left : p < d.numStates)
    (right : q < d.numStates) (apart : ¬ d.Alike p q) :
    ∃ after, mark o d.numStates marked p q = some after ∧ Sound d after ∧ Grown d marked after ∧
      Marked d.numStates after p q := by
  obtain ⟨after, done, size, marks⟩ := mark_spec sound.fits sound.size_eq left right
  refine ⟨after, done, ⟨sound.fits, size, fun x inX y inY h => ?_, fun x inX y inY h => ?_⟩,
    fun x inX y inY h => ?_, ?_⟩
  · rw [marks y inY x inX]
    rcases (marks x inX y inY).1 h with old | ⟨rfl, rfl⟩ | ⟨rfl, rfl⟩
    · exact .inl (sound.symm x inX y inY old)
    · exact .inr (.inr ⟨rfl, rfl⟩)
    · exact .inr (.inl ⟨rfl, rfl⟩)
  · rcases (marks x inX y inY).1 h with old | ⟨rfl, rfl⟩ | ⟨rfl, rfl⟩
    · exact sound.not_alike x inX y inY old
    · exact apart
    · exact fun alike => apart fun w => (alike w).symm
  · exact (marks x inX y inY).2 (.inl h)
  · exact (marks p left q right).2 (.inr (.inl ⟨rfl, rfl⟩))

/-- The pairs that differ in acceptance are marked. -/
def Split (d : Dfa) (marked : Array Bool) : Prop :=
  ∀ p < d.numStates, ∀ q < d.numStates,
    d.isAccepting p ≠ d.isAccepting q → Marked d.numStates marked p q

theorem not_marked_replicate {width p q : Nat} :
    ¬ Marked width (Array.replicate (width * width) false) p q := by
  unfold Marked
  rw [Array.getElem?_replicate]
  split <;> simp

theorem markAcceptance_spec (sound : Sound d marked) {p q : State} (left : p < d.numStates)
    (right : q < d.numStates) :
    ∃ after, markAcceptance o d marked (p, q) = some after ∧ Sound d after ∧ Grown d marked after ∧
      (d.isAccepting p ≠ d.isAccepting q → Marked d.numStates after p q) := by
  unfold markAcceptance
  simp only [getElem?_accepting left, getElem?_accepting right, Option.bind_eq_bind,
    Option.bind_some]
  split
  next same => exact ⟨marked, rfl, sound, fun _ _ _ _ => id, absurd same⟩
  next apart =>
    obtain ⟨after, done, soundAfter, grown, new⟩ :=
      sound.mark left right fun alike => apart alike.isAccepting_eq
    exact ⟨after, done, soundAfter, grown, fun _ => new⟩

theorem acceptanceMarks_spec (fits : d.MarksFit) :
    ∃ marked, acceptanceMarks o d = some marked ∧ Sound d marked ∧ Split d marked := by
  have unmarked : acceptanceMarks o d = (pairs d.numStates).foldlM (markAcceptance o d)
      (Array.replicate (d.numStates * d.numStates) false) := by
    have room : d.numStates * d.numStates < arrayBound := fits
    unfold acceptanceMarks flags?
    rw [word?_of_lt (lt_wordBound room)]
    simp only [Option.bind_eq_bind, Option.bind_some, if_pos room]
  have loop : ∃ marked, acceptanceMarks o d = some marked ∧ Sound d marked ∧
      ∀ p q, (p, q) ∈ pairs d.numStates → d.isAccepting p ≠ d.isAccepting q →
        Marked d.numStates marked p q := by
    rw [unmarked]
    refine foldlM_spec (fun done marked => Sound d marked ∧ ∀ p q, (p, q) ∈ done →
      d.isAccepting p ≠ d.isAccepting q → Marked d.numStates marked p q) ⟨⟨fits, ?_, ?_, ?_⟩, ?_⟩ ?_
    · exact Array.size_replicate
    · exact fun p _ q _ h => absurd h not_marked_replicate
    · exact fun p _ q _ h => absurd h not_marked_replicate
    · exact fun p q mem => absurd mem List.not_mem_nil
    · rintro done ⟨p, q⟩ rest marked whole ⟨sound, split⟩
      have inside : ∀ {x y}, (x, y) ∈ done ++ (p, q) :: rest → x < d.numStates ∧ y < d.numStates := by
        intro x y mem
        obtain ⟨below, bound⟩ := mem_pairs.1 (whole ▸ mem)
        exact ⟨bound, Nat.lt_trans below bound⟩
      obtain ⟨left, right⟩ : p < d.numStates ∧ q < d.numStates := inside (by simp)
      obtain ⟨after, done', soundAfter, grown, new⟩ := markAcceptance_spec sound left right
      refine ⟨after, done', soundAfter, fun x y mem apart => ?_⟩
      rcases List.mem_append.1 mem with old | last
      · obtain ⟨inX, inY⟩ := inside (List.mem_append_left _ old)
        exact grown x inX y inY (split x y old apart)
      · cases List.mem_singleton.1 last
        exact new apart
  obtain ⟨marked, done, sound, split⟩ := loop
  refine ⟨marked, done, sound, fun p left q right apart => ?_⟩
  rcases Nat.lt_trichotomy p q with below | rfl | above
  · exact sound.symm q right p left (split q p (mem_pairs.2 ⟨below, right⟩) (Ne.symm apart))
  · exact absurd rfl apart
  · exact split p q (mem_pairs.2 ⟨above, left⟩) apart

/-- Whether a character tells two states apart, by the marks. -/
def apartAt (d : Dfa) (marked : Array Bool) (p q : State) (c : Char) : Bool :=
  match d.next? p c, d.next? q c with
  | some x, some y => marked.getD (x * d.numStates + y) false
  | none, none => false
  | _, _ => true

def apart (d : Dfa) (marked : Array Bool) (p q : State) : Bool :=
  d.alphabet.toList.any (apartAt d marked p q)

theorem differAt_eq (wf : d.WellFormed) (sound : Sound d marked) {p q : State} {i : Nat} {c : Char}
    (left : p < d.numStates) (right : q < d.numStates) (letter : d.alphabet.toList[i]? = some c) :
    differAt o d marked p q i = some (apartAt d marked p q c) := by
  unfold differAt apartAt
  simp only [wf.getElem?_table left letter, wf.getElem?_table right letter, Option.bind_eq_bind,
    Option.bind_some]
  cases first : d.next? p c with
  | none => cases d.next? q c <;> rfl
  | some x =>
    cases second : d.next? q c with
    | none => rfl
    | some y =>
      have bound : x * d.numStates + y < marked.size :=
        sound.size_eq ▸ square_lt (wf.next?_lt first) (wf.next?_lt second)
      dsimp only
      rw [isMarked_eq sound.fits (wf.next?_lt first) (wf.next?_lt second),
        Array.getElem?_eq_getElem bound, Array.getD_eq_getD_getElem?,
        Array.getElem?_eq_getElem bound, Option.getD_some]

theorem anyM_differAt (wf : d.WellFormed) (sound : Sound d marked) {p q : State}
    (left : p < d.numStates) (right : q < d.numStates) :
    (List.range d.alphabet.size).anyM (differAt o d marked p q) = some (apart d marked p q) := by
  have found : ∀ i ∈ List.range d.alphabet.size, differAt o d marked p q i =
      some ((d.alphabet.toList[i]?.map (apartAt d marked p q)).getD false) := by
    intro i mem
    have letter := List.getElem?_eq_getElem (l := d.alphabet.toList) (List.mem_range.1 mem)
    rw [differAt_eq wf sound left right letter, letter]
    rfl
  rw [anyM_eq_some_any found, Option.some_inj, Bool.eq_iff_iff, apart, List.any_eq_true,
    List.any_eq_true]
  constructor
  · rintro ⟨i, mem, tells⟩
    have letter := List.getElem?_eq_getElem (l := d.alphabet.toList) (List.mem_range.1 mem)
    rw [letter] at tells
    exact ⟨_, List.getElem_mem _, tells⟩
  · rintro ⟨c, mem, tells⟩
    obtain ⟨i, inside, rfl⟩ := List.mem_iff_getElem.1 mem
    refine ⟨i, List.mem_range.2 inside, ?_⟩
    rw [List.getElem?_eq_getElem inside]
    exact tells

theorem getD_eq_true_iff {width p q : Nat} :
    marked.getD (p * width + q) false = true ↔ Marked width marked p q := by
  unfold Marked
  rw [Array.getD_eq_getD_getElem?]
  cases marked[p * width + q]? <;> simp

/-- No character tells two states apart if each leads from both to a gap, or to an unmarked pair. -/
theorem apart_eq_false_iff {p q : State} : apart d marked p q = false ↔
    ∀ c, d.next? p c = none ∧ d.next? q c = none ∨
      ∃ x y, d.next? p c = some x ∧ d.next? q c = some y ∧ ¬ Marked d.numStates marked x y := by
  have letter : ∀ c, apartAt d marked p q c = false ↔
      d.next? p c = none ∧ d.next? q c = none ∨
        ∃ x y, d.next? p c = some x ∧ d.next? q c = some y ∧ ¬ Marked d.numStates marked x y := by
    intro c
    unfold apartAt
    cases d.next? p c <;> cases d.next? q c <;> simp [← getD_eq_true_iff]
  unfold apart
  rw [List.any_eq_false]
  simp only [Bool.not_eq_true, letter]
  refine ⟨fun known c => ?_, fun all c _ => all c⟩
  by_cases mem : c ∈ d.alphabet
  · exact known c mem
  · exact .inl ⟨next?_eq_none_of_not_mem mem, next?_eq_none_of_not_mem mem⟩

/-- A character that tells states apart by sound marks begins a word that tells them apart. -/
theorem Sound.not_alike_of_apart (wf : d.WellFormed) (sound : Sound d marked) {p q : State}
    (tells : apart d marked p q = true) : ¬ d.Alike p q := by
  intro alike
  suffices same : apart d marked p q = false by rw [same] at tells; cases tells
  refine apart_eq_false_iff.2 fun c => (alike.next? c).imp_right ?_
  rintro ⟨x, y, first, second, after⟩
  refine ⟨x, y, first, second, fun h => ?_⟩
  exact sound.not_alike x (wf.next?_lt first) y (wf.next?_lt second) h after

/-- What a look at a pair leaves behind: either nothing has changed and the pair is settled, or a mark
has been made. -/
theorem look_spec (wf : d.WellFormed) {r : Round} (sound : Sound d r.marked) {p q : State}
    (left : p < d.numStates) (right : q < d.numStates) :
    ∃ s, r.look o d (p, q) = some s ∧ Sound d s.marked ∧ Grown d r.marked s.marked ∧
      (s.changed = false →
        s = r ∧ (Marked d.numStates r.marked p q ∨ apart d r.marked p q = false)) := by
  unfold Round.look
  have bound : p * d.numStates + q < r.marked.size := sound.size_eq ▸ square_lt left right
  rw [isMarked_eq sound.fits left right]
  cases known : r.marked[p * d.numStates + q]? with
  | none => exact absurd bound (Nat.not_lt.2 (Array.getElem?_eq_none_iff.1 known))
  | some value =>
    cases value with
    | true => exact ⟨r, rfl, sound, fun _ _ _ _ => id, fun _ => ⟨rfl, .inl known⟩⟩
    | false =>
      dsimp only
      rw [anyM_differAt wf sound left right]
      cases tells : apart d r.marked p q with
      | false => exact ⟨r, rfl, sound, fun _ _ _ _ => id, fun _ => ⟨rfl, .inr rfl⟩⟩
      | true =>
        obtain ⟨after, done, soundAfter, grown, _⟩ :=
          sound.mark left right (sound.not_alike_of_apart wf tells)
        refine ⟨⟨after, true⟩, ?_, soundAfter, grown, fun impossible => nomatch impossible⟩
        show (mark o d.numStates r.marked p q).bind _ = _
        rw [done]
        rfl

/-- Nothing is left to mark. -/
def Stable (d : Dfa) (marked : Array Bool) : Prop :=
  ∀ p q, (p, q) ∈ pairs d.numStates →
    Marked d.numStates marked p q ∨ apart d marked p q = false

theorem round_spec (wf : d.WellFormed) (sound : Sound d marked) :
    ∃ r, round o d marked = some r ∧ Sound d r.marked ∧ Grown d marked r.marked ∧
      (r.changed = false → r.marked = marked ∧ Stable d marked) := by
  refine foldlM_spec (fun done (r : Round) => Sound d r.marked ∧ Grown d marked r.marked ∧
    (r.changed = false → r.marked = marked ∧ ∀ p q, (p, q) ∈ done →
      Marked d.numStates marked p q ∨ apart d marked p q = false)) ?_ ?_
  · exact ⟨sound, fun _ _ _ _ => id, fun _ => ⟨rfl, fun p q mem => absurd mem List.not_mem_nil⟩⟩
  · rintro done ⟨p, q⟩ rest r whole ⟨soundR, grown, unchanged⟩
    obtain ⟨below, left⟩ := mem_pairs.1 (show (p, q) ∈ pairs d.numStates by rw [whole]; simp)
    obtain ⟨s, looked, soundS, more, settled⟩ :=
      look_spec wf soundR left (Nat.lt_trans below left)
    refine ⟨s, looked, soundS, fun x inX y inY h => more x inX y inY (grown x inX y inY h),
      fun same => ?_⟩
    obtain ⟨rfl, here⟩ := settled same
    obtain ⟨equal, before⟩ := unchanged same
    rw [equal] at here
    refine ⟨equal, fun x y mem => ?_⟩
    rcases List.mem_append.1 mem with old | last
    · exact before x y old
    · cases List.mem_singleton.1 last
      exact here

theorem fill_spec (wf : d.WellFormed) (sound : Sound d marked) (split : Split d marked) :
    ∃ after, fill o d marked = some after ∧ Sound d after ∧ Split d after ∧ Stable d after := by
  fun_induction fill o d marked with
  | case1 marked failed =>
    obtain ⟨r, done, _⟩ := round_spec wf sound
    rw [failed] at done
    cases done
  | case2 marked after done =>
    obtain ⟨r, same, _, _, unchanged⟩ := round_spec wf sound
    rw [done] at same
    cases same
    obtain ⟨rfl, stable⟩ := unchanged rfl
    exact ⟨_, rfl, sound, split, stable⟩
  | case3 marked after done ih =>
    obtain ⟨r, same, soundAfter, grown, _⟩ := round_spec wf sound
    rw [done] at same
    cases same
    exact ih soundAfter fun p left q right apart => grown p left q right (split p left q right apart)

/-- When nothing is left to mark, no character tells unmarked states apart. -/
theorem Stable.next? (sound : Sound d marked) (stable : Stable d marked) {p q : State}
    (left : p < d.numStates) (right : q < d.numStates)
    (unmarked : ¬ Marked d.numStates marked p q) (c : Char) :
    p = q ∨ d.next? p c = none ∧ d.next? q c = none ∨
      ∃ x y, d.next? p c = some x ∧ d.next? q c = some y ∧
        ¬ (Marked d.numStates marked x y ∧ Marked d.numStates marked y x) := by
  rcases Nat.lt_trichotomy p q with below | same | above
  · have turned : ¬ Marked d.numStates marked q p := fun h => unmarked (sound.symm q right p left h)
    have settled := (stable q p (mem_pairs.2 ⟨below, right⟩)).resolve_left turned
    rcases apart_eq_false_iff.1 settled c with ⟨first, second⟩ | ⟨x, y, first, second, h⟩
    · exact .inr (.inl ⟨second, first⟩)
    · exact .inr (.inr ⟨y, x, second, first, fun both => h both.2⟩)
  · exact .inl same
  · have settled := (stable p q (mem_pairs.2 ⟨above, left⟩)).resolve_left unmarked
    rcases apart_eq_false_iff.1 settled c with gaps | ⟨x, y, first, second, h⟩
    · exact .inr (.inl gaps)
    · exact .inr (.inr ⟨x, y, first, second, fun both => h both.1⟩)

/-- When nothing is left to mark, no word tells unmarked states apart. -/
theorem Stable.alike (wf : d.WellFormed) (sound : Sound d marked) (split : Split d marked)
    (stable : Stable d marked) {p q : State} (left : p < d.numStates) (right : q < d.numStates)
    (unmarked : ¬ Marked d.numStates marked p q) : d.Alike p q := by
  intro w
  induction w generalizing p q with
  | nil =>
    rw [outcome_nil, outcome_nil]
    exact congrArg some (Classical.byContradiction fun differ => unmarked (split p left q right differ))
  | cons c w ih =>
    rcases stable.next? sound left right unmarked c with
      rfl | ⟨first, second⟩ | ⟨x, y, first, second, h⟩
    · rfl
    · rw [outcome_cons, outcome_cons, first, second]
    · have inX := wf.next?_lt first
      have inY := wf.next?_lt second
      rw [outcome_cons, outcome_cons, first, second]
      exact ih inX inY fun mark => h ⟨mark, sound.symm x inX y inY mark⟩

/-- The marks are between the states of different classes. -/
def Separates (o : Overflow) (d : Dfa) (marked : Array Bool) : Prop :=
  ∀ p < d.numStates, ∀ q < d.numStates, isMarked o d.numStates marked p q =
    some (decide (d.classes.leader p ≠ d.classes.leader q))

/-- In the end exactly the pairs are marked that are not in one class. -/
theorem marks_spec (wf : d.WellFormed) (fits : d.MarksFit) :
    ∃ marked, (acceptanceMarks o d).bind (fill o d) = some marked ∧ Separates o d marked := by
  obtain ⟨start, begun, soundStart, splitStart⟩ := acceptanceMarks_spec fits
  obtain ⟨marked, filled, sound, split, stable⟩ := fill_spec wf soundStart splitStart
  refine ⟨marked, by rw [begun]; exact filled, fun p left q right => ?_⟩
  have bound : p * d.numStates + q < marked.size := sound.size_eq ▸ square_lt left right
  have iff : Marked d.numStates marked p q ↔ d.classes.leader p ≠ d.classes.leader q := by
    rw [ne_eq, ← Partition.Same, same_classes_iff wf left right]
    constructor
    · exact sound.not_alike p left q right
    · intro differ
      exact Classical.byContradiction fun unmarked =>
        differ (stable.alike wf sound split left right unmarked)
  rw [isMarked_eq fits left right, Array.getElem?_eq_getElem bound, Option.some_inj, Bool.eq_iff_iff,
    decide_eq_true_iff, ← iff, Marked, Array.getElem?_eq_getElem bound, Option.some_inj]

end Lexing.Dfa.Guarded
