import Lexing.Proofs.Pattern.Leaves
import Lexing.Proofs.Scanner.Location

set_option autoImplicit false

namespace Lexing.Scanner

variable {rules : List (String × String)} {s : Scanner}

/-- The texts of the rules of a scanner spell patterns. -/
theorem exists_parse_of_ofRules (compiled : ofRules rules = .ok s) :
    ∀ rule ∈ rules, ∃ p, Pattern.parse rule.2 = .ok p := by
  intro rule mem
  obtain ⟨r, made⟩ := exists_ofText_of_implements (rules_of_ofRules compiled) rule mem
  obtain ⟨p, _, parsed, _⟩ := Regex.ofText_eq_ok made
  exact ⟨p, parsed⟩

theorem mem_literals_iff_mem_characters (compiled : ofRules rules = .ok s) (c : Char) :
    c ∈ s.literals ↔ Text.isAlphanumeric c = true ∧
      ∃ rule ∈ rules, ∃ p, Pattern.parse rule.2 = .ok p ∧ c ∈ p.characters := by
  rw [mem_literals_iff compiled]
  refine and_congr_right fun alphanumeric => exists_congr fun rule => and_congr_right fun mem => ?_
  constructor
  · intro own
    obtain ⟨p, parsed⟩ := exists_parse_of_ofRules compiled rule mem
    have spelled := Pattern.spells_of_readAfter parsed .nil
    exact ⟨p, parsed, (spelled.mem_iff_mem_characters alphanumeric).1 own⟩
  · rintro ⟨p, parsed, own⟩
    have spelled := Pattern.spells_of_readAfter parsed .nil
    exact (spelled.mem_iff_mem_characters alphanumeric).2 own

/-- A text and the pattern that it spells have the same leaves in the same order, and the same letters and
digits. So a scanner, which collects letters and digits from the texts, has those that are characters of
the patterns or ends of their ranges. -/
theorem literals_of_leaves :
    (∀ text p, Pattern.parse text = .ok p →
      text.toList.filter Text.isAlphanumeric = p.characters.filter Text.isAlphanumeric ∧
      Pattern.written text.toList = p.leaves) ∧
    ∀ rules s, ofRules rules = .ok s →
      (∀ rule ∈ rules, ∃ p, Pattern.parse rule.2 = .ok p) ∧
      ∀ c, c ∈ s.literals ↔ Text.isAlphanumeric c = true ∧
        ∃ rule ∈ rules, ∃ p, Pattern.parse rule.2 = .ok p ∧
          (.char c ∈ p.leaves ∨ ∃ d, .range c d ∈ p.leaves ∨ .range d c ∈ p.leaves) := by
  refine ⟨fun text p parsed => ?_, fun rules s compiled =>
    ⟨exists_parse_of_ofRules compiled, fun c => ?_⟩⟩
  · have spelled : Pattern.Spells .alternation text.toList p :=
      Pattern.spells_of_readAfter parsed .nil
    exact ⟨spelled.filter_isAlphanumeric, spelled.written_eq⟩
  · simp only [← Pattern.mem_characters_iff]
    exact mem_literals_iff_mem_characters compiled c

/-- A group with a bar in it, a bracket, an escape and a space. The middle of the range stands nowhere. -/
theorem literals_of_leaves_grouped : ∃ p s, Pattern.parse "([b-d]|\\+a) a?" = .ok p ∧
    ofRules [("sum", "([b-d]|\\+a) a?")] = .ok s ∧
    p.leaves = [.range 'b' 'd', .char '+', .char 'a', .char 'a'] ∧
    Pattern.written "([b-d]|\\+a) a?".toList = p.leaves ∧
    ['b', 'd', 'a', 'a'] = p.characters.filter Text.isAlphanumeric ∧
    'd' ∈ s.literals ∧ 'c' ∉ s.literals := by
  have range : Pattern.Spells .item ['[', 'b', '-', 'd', ']'] (.range 'b' 'd') :=
    .plain (.bracket (by decide) (by decide) (by decide))
  have sign : Pattern.Spells .item ['\\', '+'] (.char '+') := .plain (.escaped (by decide))
  have letter : Pattern.Spells .item ['a'] (.char 'a') := .plain (.literal (by decide))
  have inner := Pattern.Spells.bar range.one (sign.one.more letter).single
  have parsed : Pattern.parse "([b-d]|\\+a) a?" = .ok (.seq
      (.alt (.range 'b' 'd') (.seq (.char '+') (.char 'a'))) (.opt (.char 'a'))) :=
    ((Pattern.Spells.plain (.group inner)).one.more letter.opt.spaceBefore).single.readable
  obtain ⟨s, compiled⟩ : ∃ s, ofRules [("sum", "([b-d]|\\+a) a?")] = .ok s := by
    refine exists_ofRules fun rule mem => ?_
    obtain rfl := List.mem_singleton.1 mem
    exact ⟨by decide, _, parsed⟩
  obtain ⟨texts, scanners⟩ := literals_of_leaves
  obtain ⟨alphanumeric, written⟩ := texts _ _ parsed
  have literals := (scanners _ s compiled).2
  refine ⟨_, s, parsed, compiled, rfl, written, alphanumeric, (literals 'd').2 ?_, fun mem => ?_⟩
  · exact ⟨by decide, _, List.mem_singleton_self _, _, parsed, .inr ⟨'b', .inr (by decide)⟩⟩
  · obtain ⟨-, rule, own, p, same, leaf⟩ := (literals 'c').1 mem
    obtain rfl := List.mem_singleton.1 own
    obtain rfl := Except.ok.inj (parsed.symm.trans same)
    simp at leaf

end Lexing.Scanner
