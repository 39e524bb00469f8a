import Lexing.Pattern.Basic

set_option autoImplicit false

namespace Lexing.Pattern

/-- A word of the language of a pattern. -/
inductive Matches : Pattern → List Char → Prop where
  | char (c : Char) : Matches (.char c) [c]
  | range {first last c : Char} : first ≤ c → c ≤ last → Matches (.range first last) [c]
  | seq {l r : Pattern} {u v : List Char} : Matches l u → Matches r v → Matches (.seq l r) (u ++ v)
  | altLeft {l r : Pattern} {w : List Char} : Matches l w → Matches (.alt l r) w
  | altRight {l r : Pattern} {w : List Char} : Matches r w → Matches (.alt l r) w
  | optNone {p : Pattern} : Matches (.opt p) []
  | optSome {p : Pattern} {w : List Char} : Matches p w → Matches (.opt p) w
  | starNone {p : Pattern} : Matches (.star p) []
  | starMore {p : Pattern} {u v : List Char} :
      Matches p u → Matches (.star p) v → Matches (.star p) (u ++ v)
  | plus {p : Pattern} {u v : List Char} :
      Matches p u → Matches (.star p) v → Matches (.plus p) (u ++ v)

theorem matches_char_iff {c : Char} {w : List Char} : Matches (.char c) w ↔ w = [c] := by
  constructor
  · intro h
    cases h
    rfl
  · intro h
    exact h ▸ .char c

theorem matches_range_iff {first last : Char} {w : List Char} :
    Matches (.range first last) w ↔ ∃ c, first ≤ c ∧ c ≤ last ∧ w = [c] := by
  constructor
  · intro h
    cases h with
    | range lower upper => exact ⟨_, lower, upper, rfl⟩
  · intro h
    obtain ⟨c, lower, upper, rfl⟩ := h
    exact .range lower upper

theorem matches_seq_iff {l r : Pattern} {w : List Char} :
    Matches (.seq l r) w ↔ ∃ u v, w = u ++ v ∧ Matches l u ∧ Matches r v := by
  constructor
  · intro h
    cases h with
    | seq left right => exact ⟨_, _, rfl, left, right⟩
  · intro h
    obtain ⟨u, v, rfl, left, right⟩ := h
    exact .seq left right

theorem matches_alt_iff {l r : Pattern} {w : List Char} :
    Matches (.alt l r) w ↔ Matches l w ∨ Matches r w := by
  constructor
  · intro h
    cases h with
    | altLeft left => exact .inl left
    | altRight right => exact .inr right
  · intro h
    exact h.elim .altLeft .altRight

theorem matches_opt_iff {p : Pattern} {w : List Char} :
    Matches (.opt p) w ↔ w = [] ∨ Matches p w := by
  constructor
  · intro h
    cases h with
    | optNone => exact .inl rfl
    | optSome body => exact .inr body
  · intro h
    rcases h with rfl | body
    · exact .optNone
    · exact .optSome body

theorem matches_plus_iff {p : Pattern} {w : List Char} :
    Matches (.plus p) w ↔ ∃ u v, w = u ++ v ∧ Matches p u ∧ Matches (.star p) v := by
  constructor
  · intro h
    cases h with
    | plus body more => exact ⟨_, _, rfl, body, more⟩
  · intro h
    obtain ⟨u, v, rfl, body, more⟩ := h
    exact .plus body more

theorem matches_star_iff {p : Pattern} {w : List Char} :
    Matches (.star p) w ↔ w = [] ∨ Matches (.plus p) w := by
  rw [matches_plus_iff]
  constructor
  · intro h
    cases h with
    | starNone => exact .inl rfl
    | starMore body more => exact .inr ⟨_, _, rfl, body, more⟩
  · intro h
    rcases h with rfl | ⟨u, v, rfl, body, more⟩
    · exact .starNone
    · exact .starMore body more

end Lexing.Pattern
