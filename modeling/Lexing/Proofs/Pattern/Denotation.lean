import Lexing.Pattern.Language
import Lexing.Proofs.Pattern.Splicing
import Mathlib.Computability.Language

set_option autoImplicit false

open scoped Computability

namespace Lexing.Pattern

/-- The words of a pattern, by union, concatenation and iteration. -/
def language : Pattern → Language Char
  | char c => {w | w = [c]}
  | range first last => {w | ∃ c, first ≤ c ∧ c ≤ last ∧ w = [c]}
  | seq left right => left.language * right.language
  | alt left right => left.language + right.language
  | opt body => 1 + body.language
  | star body => body.language∗
  | plus body => body.language * body.language∗

/-- A range with its ends in the wrong order has no word. -/
theorem language_range_of_lt {first last : Char} (crossed : last < first) :
    (range first last).language = 0 := by
  ext w
  constructor
  · rintro ⟨c, lower, upper, _⟩
    exact absurd (Char.le_trans lower upper) (Char.not_le.2 crossed)
  · intro absent
    exact absurd absent (Language.notMem_zero w)

theorem mem_kstar_iff_matches {p : Pattern} (same : ∀ w, w ∈ p.language ↔ p.Matches w)
    {w : List Char} : w ∈ p.language∗ ↔ (star p).Matches w := by
  constructor
  · intro mem
    obtain ⟨words, rfl, each⟩ := Language.mem_kstar.1 mem
    induction words with
    | nil => exact .starNone
    | cons u rest ih =>
      have body : p.Matches u := (same u).1 (each u List.mem_cons_self)
      have more : ∀ v ∈ rest, v ∈ p.language := fun v h => each v (List.mem_cons_of_mem u h)
      exact .starMore body (ih more (Language.join_mem_kstar more))
  · intro whole
    generalize tree : star p = q at whole
    induction whole with
    | starNone => exact Language.nil_mem_kstar _
    | starMore body _ _ more =>
      cases tree
      have unfolded : p.language * p.language∗ ≤ p.language∗ := mul_kstar_le_kstar
      exact unfolded (Language.append_mem_mul ((same _).2 body) (more rfl))
    | char | range | seq | altLeft | altRight | optNone | optSome | plus => cases tree

/-- The rules for words give the same language. -/
theorem mem_language_iff {p : Pattern} {w : List Char} : w ∈ p.language ↔ p.Matches w := by
  induction p generalizing w with
  | char c => exact matches_char_iff.symm
  | range first last => exact matches_range_iff.symm
  | seq left right ihLeft ihRight =>
    rw [language, Language.mem_mul, matches_seq_iff]
    simp only [ihLeft, ihRight]
    constructor
    · rintro ⟨u, inLeft, v, inRight, rfl⟩
      exact ⟨u, v, rfl, inLeft, inRight⟩
    · rintro ⟨u, v, rfl, inLeft, inRight⟩
      exact ⟨u, inLeft, v, inRight, rfl⟩
  | alt left right ihLeft ihRight =>
    rw [language, Language.mem_add, matches_alt_iff, ihLeft, ihRight]
  | opt body ih =>
    rw [language, Language.mem_add, Language.mem_one, matches_opt_iff, ih]
  | star body ih => exact mem_kstar_iff_matches fun w => ih
  | plus body ih =>
    rw [language, Language.mem_mul, matches_plus_iff]
    simp only [ih, mem_kstar_iff_matches fun w => ih]
    constructor
    · rintro ⟨u, first, v, more, rfl⟩
      exact ⟨u, v, rfl, first, more⟩
    · rintro ⟨u, v, rfl, first, more⟩
      exact ⟨u, first, v, more, rfl⟩

/-- The automaton accepts the language, and it is the same if it is made piece by piece. -/
theorem accepts_iff_mem_language {p : Pattern} {n : Nfa} (made : p.toNfa? = some n) :
    p.spliced? = some n ∧ ∀ w, n.accepts w = true ↔ w ∈ p.language := by
  refine ⟨(spliced?_eq p).trans made, fun w => ?_⟩
  rw [mem_language_iff]
  exact accepts_of_toNfa? made

/-- The words of an empty range any number of times, then some of two characters with only surrogates
between them. -/
def acrossGap : Pattern := seq (star (range 'b' 'a')) (plus (range '\uD7FF' '\uE000'))

theorem language_acrossGap : acrossGap.language = (plus (range '\uD7FF' '\uE000')).language := by
  have empty : (range 'b' 'a').language = 0 := language_range_of_lt (by decide)
  rw [acrossGap, language, language, empty, kstar_zero, one_mul]

theorem accepts_iff_mem_language_acrossGap : ∃ n, acrossGap.toNfa? = some n ∧
    acrossGap.spliced? = some n ∧ n.accepts ['\uE000', '\uD7FF'] = true ∧ n.accepts [] = false := by
  obtain ⟨n, made⟩ : ∃ n, acrossGap.toNfa? = some n :=
    exists_toNfa? (by decide) fun first last same => by cases same
  obtain ⟨again, accepted⟩ := accepts_iff_mem_language made
  rw [language_acrossGap] at accepted
  have twice : (plus (range '\uD7FF' '\uE000')).Matches ['\uE000', '\uD7FF'] :=
    .plus (.range (by decide) (by decide)) (.starMore (.range (by decide) (by decide)) .starNone)
  have once : ¬ (plus (range '\uD7FF' '\uE000')).Matches [] := by
    intro whole
    obtain ⟨u, v, parts, first, _⟩ := matches_plus_iff.1 whole
    obtain ⟨c, _, _, rfl⟩ := matches_range_iff.1 first
    cases parts
  refine ⟨n, made, again, (accepted _).2 (mem_language_iff.2 twice), ?_⟩
  exact Bool.eq_false_iff.2 fun yes => once (mem_language_iff.1 ((accepted []).1 yes))

end Lexing.Pattern
