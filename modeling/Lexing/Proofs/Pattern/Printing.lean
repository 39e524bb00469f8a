import Lexing.Proofs.Pattern.Reading

set_option autoImplicit false

namespace Lexing.Pattern

variable {s : List Char} {p : Pattern}

theorem Spells.toAlternation (h : Spells .item s p) : Spells .alternation s p := h.one.single

theorem Spells.parenthesized (h : Spells .alternation s p) : Spells .item (parenthesized s) p :=
  .plain (.group h)

theorem spells_printChar {c : Char} (wf : (char c).WellFormed) :
    Spells .atom (char c).print (char c) := by
  rw [print]
  split
  next literal => exact .literal literal
  next other => exact .escaped (wf.resolve_left other)

theorem WellFormed.spells_print (wf : p.WellFormed) : Spells .alternation p.print p := by
  induction p with
  | char c => exact (spells_printChar wf).plain.toAlternation
  | range first last =>
    obtain ⟨alphanumericFirst, alphanumericLast, ordered⟩ := wf
    exact (Spells.bracket alphanumericFirst alphanumericLast ordered).plain.toAlternation
  | seq left right first second =>
    obtain ⟨wfLeft, wfRight⟩ := wf
    exact ((first wfLeft).parenthesized.one.more (second wfRight).parenthesized).single
  | alt left right first second =>
    obtain ⟨wfLeft, wfRight⟩ := wf
    exact (first wfLeft).parenthesized.one.bar (second wfRight).parenthesized.toAlternation
  | opt body ih => exact (ih wf).parenthesized.opt.toAlternation
  | star body ih => exact (ih wf).parenthesized.star.toAlternation
  | plus body ih => exact (ih wf).parenthesized.plus.toAlternation

theorem WellFormed.parse_print (wf : p.WellFormed) : parse (String.ofList p.print) = .ok p := by
  rw [parse, String.toList_ofList]
  exact wf.spells_print.readable

theorem wellFormed_of_parse {text : String} (read : parse text = .ok p) : p.WellFormed :=
  (spells_of_readAfter read .nil).wellFormed

/-- The written form of a well-formed pattern reads as the pattern, and only well-formed patterns are
ever read, so what was read can be written and reads the same again. -/
theorem print_then_parse :
    (∀ p : Pattern, p.WellFormed → parse (String.ofList p.print) = .ok p) ∧
    ∀ (text : String) (p : Pattern), parse text = .ok p →
      p.WellFormed ∧ parse (String.ofList p.print) = parse text := by
  refine ⟨fun p => WellFormed.parse_print, fun text p read => ?_⟩
  have wf := wellFormed_of_parse read
  exact ⟨wf, wf.parse_print.trans read.symm⟩

/-- An escaped parenthesis and a range before a bar, written without a group and with many. -/
theorem print_then_parse_escaped : ∃ p : Pattern, parse "\\)[a-z] | -*" = .ok p ∧ p.WellFormed ∧
    String.ofList p.print = "((\\))([a-z]))|((-)*)" ∧ parse (String.ofList p.print) = .ok p ∧
    parse (String.ofList p.print) = parse "\\)[a-z] | -*" := by
  have parenthesis : Spells .item ['\\', ')'] (char ')') := .plain (.escaped (by decide))
  have letters : Spells .item ['[', 'a', '-', 'z', ']', ' '] (range 'a' 'z') :=
    .spaceAfter (.plain (.bracket (by decide) (by decide) (by decide)))
  have hyphens : Spells .item [' ', '-', '*'] (star (char '-')) :=
    .star (.spaceBefore (.plain (.literal (by decide))))
  have read : parse "\\)[a-z] | -*" = .ok (alt (seq (char ')') (range 'a' 'z')) (star (char '-'))) :=
    ((parenthesis.one.more letters).bar hyphens.toAlternation).readable
  obtain ⟨wf, same⟩ := print_then_parse.2 _ _ read
  exact ⟨_, read, wf, by decide, print_then_parse.1 _ wf, same⟩

end Lexing.Pattern
