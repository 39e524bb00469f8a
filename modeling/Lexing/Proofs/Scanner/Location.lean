import Lexing.Proofs.Scanner.Boundaries

set_option autoImplicit false

namespace Lexing

namespace Diagnostic

variable {text : List Char}

/-- The number of characters up to the last line break of a text, that included. -/
def lineStart (text : List Char) : Nat := (text.reverse.dropWhile (· ≠ '\n')).length

theorem lineStart_add_lastLine (text : List Char) : lineStart text + lastLine text = text.length := by
  have parts := congrArg List.length
    (List.takeWhile_append_dropWhile (p := (· ≠ '\n')) (l := text.reverse))
  rw [List.length_append, List.length_reverse] at parts
  rw [lineStart, lastLine]
  omega

theorem length_lines (text : List Char) : (text.splitOn '\n').length = text.count '\n' + 1 := by
  induction text with
  | nil => rfl
  | cons c rest ih =>
    rw [List.splitOn_cons_eq_if_modifyHead, List.count_cons]
    split
    · rw [List.length_cons, ih]
    · rw [List.length_modifyHead, ih]

/-- The lines of a text and the line breaks between them make up its length. -/
theorem sum_lines (text : List Char) :
    ((text.splitOn '\n').map List.length).sum + text.count '\n' = text.length := by
  induction text with
  | nil => rfl
  | cons c rest ih =>
    rw [List.splitOn_cons_eq_if_modifyHead, List.count_cons, List.length_cons, ← ih]
    split
    · rw [List.map_cons, List.sum_cons, List.length_nil]
      omega
    · obtain ⟨first, later, split⟩ := List.exists_cons_of_ne_nil (List.splitOn_ne_nil '\n' rest)
      rw [split, List.modifyHead_cons, List.map_cons, List.map_cons, List.sum_cons, List.sum_cons,
        List.length_cons]
      omega

theorem takeWhile_line {line : List Char} (unbroken : '\n' ∉ line) (rest : List Char) :
    (line ++ rest).takeWhile (· ≠ '\n') = line ++ rest.takeWhile (· ≠ '\n') :=
  List.takeWhile_append_of_pos fun _ mem => decide_eq_true (ne_of_mem_of_not_mem mem unbroken)

theorem exists_lines (text : List Char) : ∃ earlier last, text.splitOn '\n' = earlier ++ [last] ∧
    last.length = lastLine text := by
  rw [lastLine]
  by_cases broken : '\n' ∈ text.reverse
  · -- the first line break from behind is the last one
    obtain ⟨last, before, split, unbroken⟩ := List.eq_append_cons_of_mem broken
    have whole : text = before.reverse ++ '\n' :: last.reverse := by
      rw [← List.reverse_reverse text, split]
      simp
    have alone : last.reverse.splitOn '\n' = [last.reverse] :=
      List.splitOn_eq_singleton (by simpa using unbroken)
    refine ⟨before.reverse.splitOn '\n', last.reverse, ?_, ?_⟩
    · rw [whole, List.splitOn_append_cons_self, alone]
    · rw [split, takeWhile_line unbroken, List.takeWhile_cons_of_neg (by simp), List.append_nil,
        List.length_reverse]
  · refine ⟨[], text, List.splitOn_eq_singleton (by simpa using broken), ?_⟩
    rw [← List.append_nil text.reverse, takeWhile_line broken, List.takeWhile_nil, List.append_nil,
      List.length_reverse]

/-- The lines of a text, of which the last one begins at the start of the line. -/
theorem lines_spec (text : List Char) : ∃ earlier last, text.splitOn '\n' = earlier ++ [last] ∧
    earlier.length = text.count '\n' ∧ last.length = lastLine text ∧
    (earlier.map List.length).sum + text.count '\n' = lineStart text := by
  obtain ⟨earlier, last, lines, length⟩ := exists_lines text
  have number := length_lines text
  have total := sum_lines text
  have start := lineStart_add_lastLine text
  rw [lines, List.length_append, List.length_singleton] at number
  rw [lines, List.map_append, List.sum_append, List.map_singleton, List.sum_singleton] at total
  exact ⟨earlier, last, lines, by omega, length, by omega⟩

theorem drop_eq_singleton_iff {offset : Nat} {c : Char} :
    text.drop offset = [c] ↔ offset + 1 = text.length ∧ text[offset]? = some c := by
  have first : (text.drop offset)[0]? = text[offset]? := by rw [List.getElem?_drop, Nat.add_zero]
  constructor
  · intro last
    have length := congrArg List.length last
    rw [List.length_drop, List.length_singleton] at length
    rw [last] at first
    exact ⟨by omega, first.symm⟩
  · rintro ⟨last, here⟩
    have length : (text.drop offset).length = 1 := by
      rw [List.length_drop]
      omega
    obtain ⟨d, alone⟩ := List.length_eq_one_iff.1 length
    rw [alone, here] at first
    rw [alone, Option.some.inj first]

theorem atEnd_iff {literals : SortedSet Char} {offset : Nat} :
    atEnd literals text offset = true ↔
      offset + 1 = text.length ∧ ∃ c, text[offset]? = some c ∧ c ∈ literals := by
  have singleton : atEnd literals text offset = true ↔ ∃ c, text.drop offset = [c] ∧ c ∈ literals := by
    rw [atEnd]
    split
    next d alone => simp [alone]
    next other =>
      have none : ¬∃ c, text.drop offset = [c] ∧ c ∈ literals := by
        rintro ⟨c, alone, -⟩
        exact other c alone
      simp [none]
  rw [singleton]
  simp only [drop_eq_singleton_iff, and_assoc, exists_and_left]

theorem position_locate_eq_endOfText_iff (literals : SortedSet Char) (text : List Char)
    (offset : Nat) : (locate literals text offset).position = .endOfText ↔
      atEnd literals text offset = true := by
  rw [locate]
  by_cases last : atEnd literals text offset = true <;> simp [last]

theorem position_locate (literals : SortedSet Char) (text : List Char) (offset : Nat) :
    (locate literals text offset).position = .endOfText ∨
      (locate literals text offset).position = .column (lastLine (text.take offset)) := by
  rw [locate]
  by_cases last : atEnd literals text offset = true <;> simp [last]

end Diagnostic

namespace Scanner

variable {rules : List (String × String)} {s : Scanner}

theorem mem_literals_iff (compiled : ofRules rules = .ok s) (c : Char) :
    c ∈ s.literals ↔ Text.isAlphanumeric c = true ∧ ∃ rule ∈ rules, c ∈ rule.2.toList := by
  rw [ofRules] at compiled
  split at compiled
  · cases compiled
  · cases compiled
    simp [and_comm]

/-- A diagnostic points to a character of the text. The text before it has as many complete lines as the
diagnostic says, and the begun line as many characters as the column says, which is the offset less the
start of that line. The column is left out exactly for a letter or digit of some pattern at the end. -/
theorem scan_error_location (compiled : ofRules rules = .ok s) {text : String} {d : Diagnostic}
    (error : s.scan text = .error d) :
    d.offset < text.length ∧
    (d.position = .endOfText ↔ d.offset + 1 = text.length ∧
      ∃ c, text.toList[d.offset]? = some c ∧ Text.isAlphanumeric c = true ∧
        ∃ rule ∈ rules, c ∈ rule.2.toList) ∧
    ∃ earlier last, (text.toList.take d.offset).splitOn '\n' = earlier ++ [last] ∧
      earlier.length = d.line ∧
      (d.position = .endOfText ∨ d.position = .column last.length) ∧
      last.length + (earlier.map List.length).sum + d.line = d.offset ∧
      Diagnostic.lineStart (text.toList.take d.offset) ≤ d.offset ∧
      last.length = d.offset - Diagnostic.lineStart (text.toList.take d.offset) := by
  obtain ⟨offset, stuckAt, rfl⟩ := (scan_eq_error_iff compiled text d).1 error
  have inside := stuckAt.inside
  have ends : Diagnostic.atEnd s.literals text.toList offset = true ↔ offset + 1 = text.length ∧
      ∃ c, text.toList[offset]? = some c ∧ Text.isAlphanumeric c = true ∧
        ∃ rule ∈ rules, c ∈ rule.2.toList := by
    simp only [Diagnostic.atEnd_iff, mem_literals_iff compiled, String.length_toList]
  have before : (text.toList.take offset).length = offset := List.length_take_of_le inside.le
  obtain ⟨earlier, last, lines, number, column, start⟩ :=
    Diagnostic.lines_spec (text.toList.take offset)
  have total := Diagnostic.lineStart_add_lastLine (text.toList.take offset)
  refine ⟨inside, (Diagnostic.position_locate_eq_endOfText_iff ..).trans ends, earlier, last, lines,
    number, ?_, ?_⟩
  · rw [column]
    exact Diagnostic.position_locate ..
  · show last.length + (earlier.map List.length).sum + (text.toList.take offset).count '\n' = offset ∧
      Diagnostic.lineStart (text.toList.take offset) ≤ offset ∧
      last.length = offset - Diagnostic.lineStart (text.toList.take offset)
    omega

/-- On the second line, behind a letter that could be scanned. -/
theorem scan_error_location_secondLine : ∃ s, ofRules [("letter", "a"), ("line", "\n")] = .ok s ∧
    s.scan "a\naba" = .error ⟨3, 1, .column 1⟩ ∧ 3 < "a\naba".length ∧
    ∃ earlier last, ['a', '\n', 'a'].splitOn '\n' = earlier ++ [last] ∧ earlier.length = 1 ∧
      last.length + (earlier.map List.length).sum + 1 = 3 := by
  have letter : Pattern.IsWord "a" := ⟨by decide, by decide, by decide⟩
  have line : Pattern.IsWord "\n" := ⟨by decide, by decide, by decide⟩
  obtain ⟨s, compiled⟩ : ∃ s, ofRules [("letter", "a"), ("line", "\n")] = .ok s :=
    exists_ofRules_words (by simp [letter, line])
  have first : ∀ rest ∈ [['\n', 'a', 'b', 'a'], ['b', 'a']],
      s.first? (['a'] ++ rest) = some ("letter", ['a'].length) := by
    simp [first?_eq compiled, Munch.first?, Munch.upTo, letter.describes_iff, line.describes_iff]
  have stuckAt : StuckAt s "a\naba".toList 3 := {
    inside := by decide
    before := by
      have broken : s.first? (['\n'] ++ ['a', 'b', 'a']) = some ("line", ['\n'].length) := by
        simp [first?_eq compiled, Munch.first?, Munch.upTo, letter.describes_iff,
          line.describes_iff]
      exact ⟨_, .token (first ['\n', 'a', 'b', 'a'] (by simp))
        (.token broken (.token (first ['b', 'a'] (by simp)) (.nothing _)))⟩
    stuck := by
      show s.first? ['b', 'a'] = none
      simp [first?_eq compiled, Munch.first?, Munch.upTo, letter.describes_iff,
        line.describes_iff] }
  have stuck : s.scan "a\naba" = .error ⟨3, 1, .column 1⟩ := stuckAt.scan_eq
  obtain ⟨inside, -, earlier, last, lines, number, -, total, -⟩ :=
    scan_error_location compiled stuck
  exact ⟨s, compiled, stuck, inside, earlier, last, lines, number, total⟩

end Scanner

end Lexing
