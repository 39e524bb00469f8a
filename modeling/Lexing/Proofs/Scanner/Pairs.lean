import Lexing.Proofs.Pattern.Printing
import Lexing.Proofs.Scanner.Boundaries

set_option autoImplicit false

namespace Lexing

namespace Pattern

theorem zero_le_of_isAlphanumeric {c : Char} (alphanumeric : Text.isAlphanumeric c = true) :
    '0' ≤ c := by
  have none : ∀ n < '0'.toNat, Text.isAlphanumeric (Char.ofNat n) = false := by decide
  refine Nat.le_of_not_lt fun (below : c.toNat < '0'.toNat) => ?_
  have other := none c.toNat below
  rw [Char.ofNat_toNat, alphanumeric] at other
  cases other

/-- The characters that words of a pattern are made of. -/
def Matchable (c : Char) : Prop := isLiteral c = true ∨ isEscapable c = true ∨ '0' ≤ c

theorem not_matchable_comma : ¬Matchable ',' := by
  rw [Matchable]
  decide

theorem WellFormed.matchable {p : Pattern} {w : List Char} (wf : p.WellFormed) (h : p.Matches w) :
    ∀ c ∈ w, Matchable c := by
  induction h with
  | char c =>
    intro d mem
    obtain rfl := List.mem_singleton.1 mem
    exact wf.imp_right .inl
  | range lower _ =>
    intro d mem
    obtain rfl := List.mem_singleton.1 mem
    exact .inr (.inr (Char.le_trans (zero_le_of_isAlphanumeric wf.1) lower))
  | seq _ _ left right =>
    intro d mem
    exact (List.mem_append.1 mem).elim (left wf.1 d) (right wf.2 d)
  | altLeft _ ih => exact ih wf.1
  | altRight _ ih => exact ih wf.2
  | optSome _ ih => exact ih wf
  | optNone | starNone => exact fun d mem => absurd mem List.not_mem_nil
  | starMore _ _ first more | plus _ _ first more =>
    intro d mem
    exact (List.mem_append.1 mem).elim (first wf d) (more wf d)

theorem Describes.comma_not_mem {text : String} {w : List Char} (h : Describes text w) : ',' ∉ w := by
  obtain ⟨p, parsed, matched⟩ := h
  exact fun mem => not_matchable_comma ((wellFormed_of_parse parsed).matchable matched _ mem)

end Pattern

theorem Diagnostic.comma_mem_message (d : Diagnostic) : ',' ∈ d.message.toList := by
  obtain ⟨before, after, split⟩ : ∃ before after, d.message = before ++ ", line " ++ after :=
    ⟨_, _, rfl⟩
  have comma : ',' ∈ ", line ".toList := by decide
  rw [split, String.toList_append, String.toList_append]
  exact List.mem_append_left _ (List.mem_append_right _ comma)

namespace Scanner

variable {rules : List (String × String)} {s : Scanner} {text rest : List Char}
  {tokens : List Token}

/-- Each token that is taken is a word of some rule. -/
theorem Takes.exists_rule (compiled : ofRules rules = .ok s) (h : Takes s text tokens rest) :
    ∀ t ∈ tokens, ∃ rule ∈ rules, rule.1 = t.kind ∧ Pattern.Describes rule.2 t.lexeme.toList := by
  induction h with
  | nothing => exact fun t mem => absurd mem List.not_mem_nil
  | @token kind lexeme text rest tokens first _ ih =>
    intro t mem
    rcases List.mem_cons.1 mem with rfl | later
    · obtain ⟨before, pattern, after, split, matched, -⟩ :=
        ((first?_eq_some_iff compiled).1 first).earliest
      rw [List.take_left] at matched
      refine ⟨(kind, pattern), by simp [split], rfl, ?_⟩
      rw [String.toList_ofList]
      exact matched
    · exact ih t later

theorem pairs_of_ok {text : String} (ok : s.scan text = .ok tokens) :
    s.pairs text = tokens.map fun t => (t.kind, t.lexeme) := by
  rw [pairs, ok]

theorem pairs_of_error {text : String} {d : Diagnostic} (stuck : s.scan text = .error d) :
    s.pairs text = [("", d.message)] := by
  rw [pairs, stuck]

/-- No pattern of a rule matches a word with a comma in it, so the tokens of a text that can be scanned
are never the pair of an empty kind and some message, and never what stands for a text that cannot. -/
theorem pairs_unambiguous (compiled : ofRules rules = .ok s) :
    (∀ rule ∈ rules, ∀ w, Pattern.Describes rule.2 w → ',' ∉ w) ∧
    (∀ (x : String) (tokens : List Token), s.scan x = .ok tokens →
      ∀ d : Diagnostic, s.pairs x ≠ [("", d.message)]) ∧
    ∀ (x y : String) (tokens : List Token) (d : Diagnostic), s.scan x = .ok tokens →
      s.scan y = .error d → s.pairs x ≠ s.pairs y := by
  have apart : ∀ (x : String) (tokens : List Token), s.scan x = .ok tokens →
      ∀ d : Diagnostic, s.pairs x ≠ [("", d.message)] := by
    intro x tokens ok d same
    rw [pairs_of_ok ok, List.map_eq_singleton_iff] at same
    obtain ⟨t, rfl, pair⟩ := same
    obtain ⟨rule, _, _, matched⟩ :=
      ((scan_eq_ok_iff compiled x).1 ok).exists_rule compiled t List.mem_cons_self
    obtain ⟨-, lexeme⟩ := Prod.mk.inj pair
    exact matched.comma_not_mem (lexeme ▸ d.comma_mem_message)
  refine ⟨fun rule _ w matched => matched.comma_not_mem, apart, fun x y tokens d ok stuck => ?_⟩
  rw [pairs_of_error stuck]
  exact apart x tokens ok d

/-- Both texts give one pair of an empty kind. -/
theorem pairs_unambiguous_emptyKind : ∃ s, ofRules [("", "a")] = .ok s ∧
    s.pairs "a" = [("", "a")] ∧
    s.pairs "ba" = [("", "No viable alternative at character 0, line 0")] ∧
    s.pairs "a" ≠ s.pairs "ba" := by
  have letter : Pattern.IsWord "a" := ⟨by decide, by decide, by decide⟩
  obtain ⟨s, compiled⟩ : ∃ s, ofRules [("", "a")] = .ok s :=
    exists_ofRules_words (by simp [letter])
  have ok : s.scan "a" = .ok [⟨"", "a"⟩] := by
    have first : s.first? (['a'] ++ []) = some ("", ['a'].length) := by
      simp [first?_eq compiled, Munch.first?, Munch.upTo, letter.describes_iff]
    exact Takes.scan_eq (.token first (.nothing []))
  have stuckAt : StuckAt s "ba".toList 0 := {
    inside := by decide
    before := ⟨[], .nothing _⟩
    stuck := by
      show s.first? ['b', 'a'] = none
      simp [first?_eq compiled, Munch.first?, Munch.upTo, letter.describes_iff] }
  have stuck : s.scan "ba" = .error ⟨0, 0, .column 0⟩ := stuckAt.scan_eq
  refine ⟨s, compiled, pairs_of_ok ok, ?_, (pairs_unambiguous compiled).2.2 _ _ _ _ ok stuck⟩
  rw [pairs_of_error stuck]
  rfl

end Scanner

end Lexing
