import Lexing.Proofs.Scanner.MaximalMunch

set_option autoImplicit false

namespace Lexing.Scanner

variable {rules : List (String × String)} {s : Scanner} {kind : String} {len : Nat}
  {text rest : List Char} {tokens : List Token}

theorem first?_eq_some_iff (compiled : ofRules rules = .ok s) :
    s.first? text = some (kind, len) ↔ Munch.Wins rules text kind len := by
  constructor
  · intro first
    rcases longestOf_spec (rules_of_ofRules compiled) text with ⟨_, _, wins, found⟩ | ⟨_, found⟩
    · obtain ⟨rfl, rfl⟩ := Prod.mk.inj (Option.some.inj (found.symm.trans first))
      exact wins
    · cases found.symm.trans first
  · intro wins
    exact (first?_eq compiled text).trans wins.first?

/-- A token that wins in a text wins in each beginning of the text that holds it. -/
theorem wins_of_append {u v : List Char} (wins : Munch.Wins rules (u ++ v) kind len)
    (inside : len ≤ u.length) : Munch.Wins rules u kind len where
  pos := wins.pos
  inside := inside
  greatest rule mem l above below := by
    have longer := wins.greatest rule mem l above (by rw [List.length_append]; omega)
    rwa [List.take_append_of_le_length below] at longer
  earliest := by
    have earliest := wins.earliest
    rwa [List.take_append_of_le_length inside] at earliest

/-- Some tokens that a scanner takes one after another from the beginning of a text, and the rest of the
text behind them. -/
inductive Takes (s : Scanner) : List Char → List Token → List Char → Prop where
  | nothing (text : List Char) : Takes s text [] text
  | token {kind : String} {lexeme text rest : List Char} {tokens : List Token} :
      s.first? (lexeme ++ text) = some (kind, lexeme.length) → Takes s text tokens rest →
      Takes s (lexeme ++ text) (⟨kind, String.ofList lexeme⟩ :: tokens) rest

/-- A place inside a text up to which tokens can be taken, and where no further one can be taken. -/
structure StuckAt (s : Scanner) (text : List Char) (offset : Nat) : Prop where
  inside : offset < text.length
  before : ∃ tokens, Takes s text tokens (text.drop offset)
  stuck : s.first? (text.drop offset) = none

theorem Takes.text_eq (h : Takes s text tokens rest) :
    text = (tokens.flatMap fun t => t.lexeme.toList) ++ rest := by
  induction h with
  | nothing text => rfl
  | token _ _ ih => simp [← ih]

theorem Takes.split {xs ys : List Token} (h : Takes s text (xs ++ ys) rest) :
    ∃ mid, Takes s text xs mid ∧ Takes s mid ys rest := by
  induction xs generalizing text with
  | nil => exact ⟨text, .nothing text, h⟩
  | cons x xs ih =>
    cases h with
    | token first later =>
      obtain ⟨mid, left, right⟩ := ih later
      exact ⟨mid, .token first left, right⟩

/-- The tokens are taken also if the rest of the text is not there. -/
theorem Takes.cut (compiled : ofRules rules = .ok s) (h : Takes s text tokens rest) :
    ∃ taken, text = taken ++ rest ∧ Takes s taken tokens [] := by
  induction h with
  | nothing text => exact ⟨[], rfl, .nothing []⟩
  | @token kind lexeme text rest tokens first _ ih =>
    obtain ⟨taken, rfl, later⟩ := ih
    rw [first?_eq_some_iff compiled, ← List.append_assoc] at first
    have sooner := wins_of_append first (by simp)
    exact ⟨lexeme ++ taken, by simp, .token ((first?_eq_some_iff compiled).2 sooner) later⟩

theorem StuckAt.takes_before (compiled : ofRules rules = .ok s) {offset : Nat}
    (h : StuckAt s text offset) : ∃ tokens, Takes s (text.take offset) tokens [] := by
  obtain ⟨tokens, before⟩ := h.before
  obtain ⟨taken, whole, left⟩ := before.cut compiled
  have first : taken = text.take offset :=
    List.append_cancel_right (whole.symm.trans (List.take_append_drop offset text).symm)
  exact ⟨tokens, first ▸ left⟩

theorem StuckAt.after {offset : Nat} (h : StuckAt s text offset) :
    StuckAt s (text.drop offset) 0 where
  inside := by
    have inside := h.inside
    rw [List.length_drop]
    omega
  before := ⟨[], .nothing _⟩
  stuck := h.stuck

theorem takes_of_first? (compiled : ofRules rules = .ok s)
    (first : s.first? text = some (kind, len)) (later : Takes s (text.drop len) tokens rest) :
    Takes s text (⟨kind, String.ofList (text.take len)⟩ :: tokens) rest := by
  have inside := ((first?_eq_some_iff compiled).1 first).inside
  have split : s.first? (text.take len ++ text.drop len) =
      some (kind, (text.take len).length) := by
    rw [List.take_append_drop, List.length_take_of_le inside, first]
  have taken := Takes.token split later
  rwa [List.take_append_drop] at taken

/-- Tokens can be taken until no rule matches. -/
theorem exists_takes (compiled : ofRules rules = .ok s) (text : List Char) :
    ∃ tokens rest, Takes s text tokens rest ∧ s.first? rest = none := by
  induction length : text.length using Nat.strongRecOn generalizing text with
  | ind n ih =>
    cases first : s.first? text with
    | none => exact ⟨[], text, .nothing text, first⟩
    | some found =>
      obtain ⟨kind, len⟩ := found
      have wins := (first?_eq_some_iff compiled).1 first
      have shorter : (text.drop len).length < n := by
        have positive := wins.pos
        have inside := wins.inside
        rw [List.length_drop]
        omega
      obtain ⟨tokens, rest, later, stuck⟩ := ih _ shorter (text.drop len) rfl
      exact ⟨_, rest, takes_of_first? compiled first later, stuck⟩

theorem takes_or_stuckAt (compiled : ofRules rules = .ok s) (text : List Char) :
    (∃ tokens, Takes s text tokens []) ∨ ∃ offset, StuckAt s text offset := by
  obtain ⟨tokens, rest, takes, stuck⟩ := exists_takes compiled text
  cases rest with
  | nil => exact .inl ⟨tokens, takes⟩
  | cons c rest =>
    obtain ⟨taken, rfl, -⟩ := takes.cut compiled
    have behind : (taken ++ c :: rest).drop taken.length = c :: rest := List.drop_left
    refine .inr ⟨taken.length, by simp, ⟨tokens, ?_⟩, ?_⟩
    · rw [behind]
      exact takes
    · rw [behind]
      exact stuck

section Runs

variable (found : List Token) (offset : Nat)

theorem scanFrom_nil : s.scanFrom found offset [] = ⟨found.reverse, none⟩ := by
  rw [scanFrom]
  rfl

theorem scanFrom_stuck (more : text ≠ []) (stuck : s.first? text = none) :
    s.scanFrom found offset text = ⟨found.reverse, some offset⟩ := by
  rw [scanFrom.eq_def, if_neg (by simpa using more)]
  split
  · rfl
  next found => simp [stuck] at found

theorem scanFrom_token {lexeme : List Char}
    (first : s.first? (lexeme ++ text) = some (kind, lexeme.length)) :
    s.scanFrom found offset (lexeme ++ text) =
      s.scanFrom (⟨kind, String.ofList lexeme⟩ :: found) (offset + lexeme.length) text := by
  have positive : 0 < lexeme.length := longestOf_pos first
  have more : ¬(lexeme ++ text).isEmpty = true := by
    simp [List.ne_nil_of_length_pos positive]
  rw [scanFrom.eq_def, if_neg more]
  split
  next none => simp [first] at none
  next found =>
    obtain ⟨rfl, rfl⟩ := Prod.mk.inj (Option.some.inj (first.symm.trans found))
    simp

/-- Scanning goes on behind the tokens that were taken. -/
theorem Takes.scanFrom_eq (h : Takes s text tokens rest) :
    s.scanFrom found offset text =
      s.scanFrom (tokens.reverse ++ found) (offset + (text.length - rest.length)) rest := by
  induction h generalizing found offset with
  | nothing text => simp
  | @token kind lexeme text rest tokens first later ih =>
    have shorter : rest.length ≤ text.length := by
      rw [later.text_eq, List.length_append]
      exact Nat.le_add_left _ _
    have ends : offset + lexeme.length + (text.length - rest.length) =
        offset + ((lexeme ++ text).length - rest.length) := by
      rw [List.length_append]
      omega
    rw [scanFrom_token found offset first, ih, ends]
    simp

end Runs

theorem Takes.scan_eq {text : String} (h : Takes s text.toList tokens []) :
    s.scan text = .ok tokens := by
  have run : s.run text = ⟨tokens, none⟩ := by
    rw [Scanner.run, h.scanFrom_eq, scanFrom_nil]
    simp
  simp only [scan, run]

theorem StuckAt.scan_eq {text : String} {offset : Nat} (h : StuckAt s text.toList offset) :
    s.scan text = .error (.locate s.literals text.toList offset) := by
  obtain ⟨tokens, before⟩ := h.before
  have inside := h.inside
  have more : text.toList.drop offset ≠ [] := by
    rw [Ne, List.drop_eq_nil_iff]
    omega
  have length : 0 + (text.toList.length - (text.toList.drop offset).length) = offset := by
    rw [List.length_drop]
    omega
  have run : s.run text = ⟨tokens, some offset⟩ := by
    rw [Scanner.run, before.scanFrom_eq, scanFrom_stuck _ _ more h.stuck, length]
    simp
  simp only [scan, run]

theorem scan_eq_ok_iff (compiled : ofRules rules = .ok s) (text : String) :
    s.scan text = .ok tokens ↔ Takes s text.toList tokens [] := by
  constructor
  · intro ok
    rcases takes_or_stuckAt compiled text.toList with ⟨found, takes⟩ | ⟨offset, stuck⟩
    · obtain rfl := Except.ok.inj (takes.scan_eq.symm.trans ok)
      exact takes
    · cases stuck.scan_eq.symm.trans ok
  · exact Takes.scan_eq

theorem scan_eq_error_iff (compiled : ofRules rules = .ok s) (text : String) (d : Diagnostic) :
    s.scan text = .error d ↔
      ∃ offset, StuckAt s text.toList offset ∧ d = .locate s.literals text.toList offset := by
  constructor
  · intro error
    rcases takes_or_stuckAt compiled text.toList with ⟨found, takes⟩ | ⟨offset, stuck⟩
    · cases takes.scan_eq.symm.trans error
    · exact ⟨offset, stuck, (Except.error.inj (stuck.scan_eq.symm.trans error)).symm⟩
  · rintro ⟨offset, stuck, rfl⟩
    exact stuck.scan_eq

/-- The lexemes of the first tokens of a text are scanned to these tokens, and those of the other tokens
to the others. If a text cannot be scanned, the part before the place of the failure can, and the part
from there on fails at once. -/
theorem scan_boundaries (compiled : ofRules rules = .ok s) (text : String) :
    (∀ xs ys, s.scan text = .ok (xs ++ ys) →
      s.scan (String.join (xs.map Token.lexeme)) = .ok xs ∧
      s.scan (String.join (ys.map Token.lexeme)) = .ok ys) ∧
    ∀ d, s.scan text = .error d →
      (∃ tokens, s.scan (String.ofList (text.toList.take d.offset)) = .ok tokens) ∧
      ∃ e, s.scan (String.ofList (text.toList.drop d.offset)) = .error e ∧ e.offset = 0 := by
  have lexemes : ∀ tokens : List Token, (String.join (tokens.map Token.lexeme)).toList =
      (tokens.flatMap fun t => t.lexeme.toList) ++ [] := by
    intro tokens
    rw [String.toList_join, List.flatMap_map, List.append_nil]
  constructor
  · intro xs ys ok
    rw [scan_eq_ok_iff compiled] at ok
    obtain ⟨mid, left, right⟩ := ok.split
    obtain ⟨taken, -, left⟩ := left.cut compiled
    rw [scan_eq_ok_iff compiled, scan_eq_ok_iff compiled, lexemes, lexemes, ← left.text_eq,
      ← right.text_eq]
    exact ⟨left, right⟩
  · intro d error
    obtain ⟨offset, stuckAt, rfl⟩ := (scan_eq_error_iff compiled text d).1 error
    obtain ⟨tokens, before⟩ := stuckAt.takes_before compiled
    have after : StuckAt s (String.ofList (text.toList.drop offset)).toList 0 := by
      rw [String.toList_ofList]
      exact stuckAt.after
    refine ⟨⟨tokens, (scan_eq_ok_iff compiled _).2 ?_⟩, _, after.scan_eq, rfl⟩
    rw [String.toList_ofList]
    exact before

/-- One rule looks beyond the end of each token here, and in vain. -/
theorem scan_boundaries_lookahead : ∃ s, ofRules [("one", "a"), ("three", "aaa")] = .ok s ∧
    s.scan "aa" = .ok ([⟨"one", "a"⟩] ++ [⟨"one", "a"⟩]) ∧
    s.scan (String.join ["a"]) = .ok [⟨"one", "a"⟩] ∧
    ∃ d, s.scan "aab" = .error d ∧ d.offset = 2 ∧
      ∃ e, s.scan (String.ofList ['b']) = .error e ∧ e.offset = 0 := by
  have one : Pattern.IsWord "a" := ⟨by decide, by decide, by decide⟩
  have three : Pattern.IsWord "aaa" := ⟨by decide, by decide, by decide⟩
  obtain ⟨s, compiled⟩ : ∃ s, ofRules [("one", "a"), ("three", "aaa")] = .ok s :=
    exists_ofRules_words (by simp [one, three])
  have first : ∀ rest ∈ [['a'], [], ['a', 'b'], ['b']],
      s.first? (['a'] ++ rest) = some ("one", ['a'].length) := by
    simp [first?_eq compiled, Munch.first?, Munch.upTo, one.describes_iff, three.describes_iff]
  have whole : s.scan "aa" = .ok ([⟨"one", "a"⟩] ++ [⟨"one", "a"⟩]) :=
    Takes.scan_eq (.token (first ['a'] (by simp)) (.token (first [] (by simp)) (.nothing [])))
  have stuckAt : StuckAt s "aab".toList 2 := {
    inside := by decide
    before := ⟨_, .token (first ['a', 'b'] (by simp)) (.token (first ['b'] (by simp)) (.nothing _))⟩
    stuck := by
      show s.first? ['b'] = none
      simp [first?_eq compiled, Munch.first?, Munch.upTo, one.describes_iff, three.describes_iff] }
  refine ⟨s, compiled, whole, ?_, _, stuckAt.scan_eq, rfl, ?_⟩
  · exact ((scan_boundaries compiled "aa").1 _ _ whole).2
  · exact ((scan_boundaries compiled "aab").2 _ stuckAt.scan_eq).2

end Lexing.Scanner
