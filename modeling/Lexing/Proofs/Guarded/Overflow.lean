import Lexing.Proofs.Guarded.Minimize

set_option autoImplicit false

namespace Lexing

namespace Dfa.Guarded

variable {o : Overflow} {d : Dfa} {marked : Array Bool}

/-- The two reductions to a word come to one. -/
theorem markIndex_wrap (width p q : Nat) :
    markIndex .wrap width p q = some ((p * width + q) % wordBound) := by
  unfold markIndex
  simp only [word?_wrap, Option.bind_eq_bind, Option.bind_some, Nat.mod_add_mod]

/-- Indices that wrap around still come near the greatest word, so an array of marks whose size has
wrapped as well is too short for some pair. -/
theorem exists_pair_outside {width size : Nat} (large : wordBound ≤ width * width)
    (short : size < arrayBound) :
    ∃ p q, (p, q) ∈ pairs width ∧ size ≤ (p * width + q) % wordBound := by
  simp only [mem_pairs]
  have halves : wordBound = arrayBound + arrayBound := rfl
  have room : 1 < arrayBound := by decide
  by_cases narrow : width ≤ arrayBound
  · -- The last row that begins below the greatest word begins above its half.
    have pos : 0 < width := by
      apply Nat.pos_of_ne_zero
      intro zero
      rw [zero] at large
      omega
    have last := Nat.div_add_mod (wordBound - 1) width
    have rest := Nat.mod_lt (wordBound - 1) pos
    rw [Nat.mul_comm] at last
    refine ⟨(wordBound - 1) / width, 0, ⟨Nat.div_pos (by omega) pos, ?_⟩, ?_⟩
    · exact Nat.div_lt_of_lt_mul (by omega)
    · rw [Nat.add_zero, Nat.mod_eq_of_lt (by omega)]
      omega
  · by_cases word : width < wordBound
    · refine ⟨1, 0, by omega, ?_⟩
      rw [Nat.add_zero, Nat.one_mul, Nat.mod_eq_of_lt word]
      omega
    · -- Some row is so long that it has indices of all sizes.
      have begins := Nat.mod_lt ((arrayBound + 1) * width) (show 0 < wordBound by decide)
      refine ⟨arrayBound + 1, arrayBound - (arrayBound + 1) * width % wordBound, by omega, ?_⟩
      rw [← Nat.mod_add_mod]
      generalize (arrayBound + 1) * width % wordBound = first at begins ⊢
      rw [Nat.mod_eq_of_lt (by omega)]
      omega

theorem isMarked_wrap_eq_none {width p q : Nat} (outside : marked.size ≤ (p * width + q) % wordBound) :
    isMarked .wrap width marked p q = none := by
  unfold isMarked
  rw [markIndex_wrap]
  exact Array.getElem?_eq_none outside

theorem size_mark {width p q : Nat} {after : Array Bool}
    (done : mark o width marked p q = some after) : after.size = marked.size := by
  obtain ⟨i, j, _, _, rfl⟩ := mark_cases done
  rw [Array.size_setIfInBounds, Array.size_setIfInBounds]

theorem size_markAcceptance {pair : Nat × Nat} {after : Array Bool}
    (done : markAcceptance o d marked pair = some after) : after.size = marked.size := by
  obtain ⟨left, _, done⟩ := Option.bind_eq_some_iff.1 done
  obtain ⟨right, _, done⟩ := Option.bind_eq_some_iff.1 done
  split at done
  · rw [← Option.some.inj done]
  · exact size_mark done

theorem size_look {r s : Round} {pair : Nat × Nat} (looked : r.look o d pair = some s) :
    s.marked.size = r.marked.size := by
  unfold Round.look at looked
  split at looked
  · cases looked
  · rw [← Option.some.inj looked]
  · obtain ⟨apart, _, looked⟩ := Option.bind_eq_some_iff.1 looked
    split at looked
    · obtain ⟨after, done, looked⟩ := Option.bind_eq_some_iff.1 looked
      rw [← Option.some.inj looked]
      exact size_mark done
    · rw [← Option.some.inj looked]

/-- The size of the marks that the first loop leaves is what was computed for it. -/
theorem size_acceptanceMarks (done : acceptanceMarks o d = some marked) :
    marked.size < arrayBound ∧ word? o (d.numStates * d.numStates) = some marked.size := by
  obtain ⟨size, computed, done⟩ := Option.bind_eq_some_iff.1 done
  obtain ⟨unmarked, allocated, done⟩ := Option.bind_eq_some_iff.1 done
  unfold flags? at allocated
  split at allocated
  next room =>
    have same : marked.size = unmarked.size :=
      foldlM_keeps (fun marks => marks.size = unmarked.size)
        (fun _ _ _ _ stepped before => (size_markAcceptance stepped).trans before) rfl done
    rw [← Option.some.inj allocated, Array.size_replicate] at same
    rw [same]
    exact ⟨room, computed⟩
  · cases allocated

/-- A round looks at all pairs, so it comes upon the one that the array is too short for. -/
theorem round_wrap_eq_none (large : wordBound ≤ d.numStates * d.numStates)
    (short : marked.size < arrayBound) : round .wrap d marked = none := by
  obtain ⟨p, q, mem, outside⟩ := exists_pair_outside large short
  refine foldlM_eq_none (fun r => r.marked.size = marked.size) mem
    (fun _ _ _ _ looked before => (size_look looked).trans before) (fun r same => ?_) rfl
  unfold Round.look
  rw [isMarked_wrap_eq_none (same ▸ outside)]

theorem fill_eq_none (failed : round o d marked = none) : fill o d marked = none := by
  rw [fill]
  split
  · rfl
  next done =>
    rw [failed] at done
    cases done
  next done =>
    rw [failed] at done
    cases done

/-- Minimization fails if the marks have no room in one array. -/
theorem minimize_eq_none (large : ¬ d.MarksFit) : minimize o d = none := by
  have least : arrayBound ≤ d.numStates * d.numStates := Nat.not_lt.1 large
  unfold minimize
  cases begun : acceptanceMarks o d with
  | none => rfl
  | some start =>
    obtain ⟨short, computed⟩ := size_acceptanceMarks begun
    rcases word?_eq_some computed with same | ⟨rfl, wrapped⟩
    · omega
    · have stuck : fill .wrap d start = none := fill_eq_none (round_wrap_eq_none wrapped short)
      simp only [Option.bind_eq_bind, Option.bind_some, stuck, Option.bind_none]

theorem minimize_eq_ite (wf : d.WellFormed) (o : Overflow) :
    minimize o d = if d.MarksFit then some d.minimize else none := by
  split
  next fits => exact minimize_eq wf fits
  next large => exact minimize_eq_none large

end Dfa.Guarded

end Lexing
