import Lexing.Proofs.Scanner.Longest
import Mathlib.Data.List.Forall2

set_option autoImplicit false

namespace Lexing

/-- Decides whether a word is in the language of the pattern that a text spells. -/
def Pattern.describes (text : String) (w : List Char) : Bool :=
  match parse text with
  | .error _ => false
  | .ok p => p.Matches w

theorem Pattern.describes_eq_true_iff {text : String} {w : List Char} :
    describes text w = true ↔ Describes text w := by
  rw [describes, Describes]
  cases parse text <;> simp

instance (text : String) (w : List Char) : Decidable (Pattern.Describes text w) :=
  decidable_of_iff _ Pattern.describes_eq_true_iff

namespace Munch

/-- The kind and the length of the longest token with at most `len` characters at the beginning of a
text. Of the rules that match that length, the earliest one gives the kind. -/
def upTo (rules : List (String × String)) (text : List Char) : Nat → Option (String × Nat)
  | 0 => none
  | len + 1 =>
    match rules.find? fun rule => Pattern.Describes rule.2 (text.take (len + 1)) with
    | some rule => some (rule.1, len + 1)
    | none => upTo rules text len

theorem upTo_pos {rules : List (String × String)} {text : List Char} {bound len : Nat}
    {kind : String} (found : upTo rules text bound = some (kind, len)) : 0 < len := by
  induction bound with
  | zero => cases found
  | succ bound ih =>
    rw [upTo] at found
    split at found
    · cases found
      exact Nat.succ_pos bound
    · exact ih found

def first? (rules : List (String × String)) (text : List Char) : Option (String × Nat) :=
  upTo rules text text.length

/-- The tokens of a text that stands at a place, or the place where no rule matches. -/
def scanFrom (rules : List (String × String)) (offset : Nat) (text : List Char) :
    Except Nat (List Token) :=
  if text.isEmpty then .ok []
  else
    match _first : first? rules text with
    | none => .error offset
    | some (kind, len) =>
      (scanFrom rules (offset + len) (text.drop len)).map fun tokens =>
        ⟨kind, String.ofList (text.take len)⟩ :: tokens
termination_by text.length
decreasing_by
  have positive := upTo_pos _first
  have some_left : 0 < text.length := by
    cases text with
    | nil => simp at *
    | cons c rest => simp
  rw [List.length_drop]
  omega

def scan (rules : List (String × String)) (text : String) : Except Nat (List Token) :=
  scanFrom rules 0 text.toList

variable {rules : List (String × String)} {text : List Char} {kind : String} {len : Nat}

theorem scanFrom_nil {offset : Nat} (last : text.isEmpty = true) :
    scanFrom rules offset text = .ok [] := by
  rw [scanFrom.eq_def, if_pos last]

theorem scanFrom_stuck {offset : Nat} (more : ¬ text.isEmpty = true)
    (stuck : first? rules text = none) : scanFrom rules offset text = .error offset := by
  rw [scanFrom.eq_def, if_neg more]
  split
  · rfl
  next found => simp [stuck] at found

theorem scanFrom_token {offset : Nat} (more : ¬ text.isEmpty = true)
    (first : first? rules text = some (kind, len)) :
    scanFrom rules offset text = (scanFrom rules (offset + len) (text.drop len)).map fun tokens =>
      ⟨kind, String.ofList (text.take len)⟩ :: tokens := by
  rw [scanFrom.eq_def, if_neg more]
  split
  next none => simp [first] at none
  next found =>
    obtain ⟨rfl, rfl⟩ := Prod.mk.inj (Option.some.inj (first.symm.trans found))
    rfl

/-- The tokens of a successful scan are not empty and make up the text. -/
theorem lexemes_of_scanFrom {offset : Nat} {tokens : List Token}
    (ok : scanFrom rules offset text = .ok tokens) :
    (∀ t ∈ tokens, t.lexeme ≠ "") ∧ (tokens.flatMap fun t => t.lexeme.toList) = text := by
  fun_induction scanFrom rules offset text generalizing tokens with
  | case1 offset text last =>
    cases ok
    exact ⟨fun t mem => absurd mem List.not_mem_nil, (List.isEmpty_iff.1 last).symm⟩
  | case2 => cases ok
  | case3 offset text more kind len first ih =>
    cases later : scanFrom rules (offset + len) (text.drop len) with
    | error e =>
      rw [later] at ok
      cases ok
    | ok rest =>
      rw [later] at ok
      cases ok
      obtain ⟨nonempty, whole⟩ := ih later
      refine ⟨fun t mem => ?_, ?_⟩
      · rcases List.mem_cons.1 mem with rfl | old
        · have positive := upTo_pos first
          have more : text ≠ [] := fun empty => more (List.isEmpty_iff.2 empty)
          simp [Nat.ne_of_gt positive, more]
        · exact nonempty t old
      · rw [List.flatMap_cons, whole, String.toList_ofList, List.take_append_drop]

/-- What the choice of a token is about: no rule matches more, and no earlier rule matches as
much. -/
structure Wins (rules : List (String × String)) (text : List Char) (kind : String) (len : Nat) :
    Prop where
  pos : 0 < len
  inside : len ≤ text.length
  greatest : ∀ rule ∈ rules, ∀ l, len < l → l ≤ text.length →
    ¬ Pattern.Describes rule.2 (text.take l)
  earliest : ∃ before pattern after, rules = before ++ (kind, pattern) :: after ∧
    Pattern.Describes pattern (text.take len) ∧
    ∀ rule ∈ before, ¬ Pattern.Describes rule.2 (text.take len)

theorem find?_eq_none {w : List Char}
    (none : ∀ rule ∈ rules, ¬ Pattern.Describes rule.2 w) :
    rules.find? (fun rule => Pattern.Describes rule.2 w) = .none := by
  refine List.find?_eq_none.2 fun rule mem => ?_
  simp only [decide_eq_true_eq]
  exact none rule mem

theorem Wins.upTo {bound : Nat} (wins : Wins rules text kind len) (below : len ≤ bound)
    (inside : bound ≤ text.length) : upTo rules text bound = some (kind, len) := by
  induction bound with
  | zero => exact absurd wins.pos (Nat.not_lt.2 below)
  | succ bound ih =>
    rw [Munch.upTo]
    by_cases last : len = bound + 1
    · obtain ⟨before, pattern, after, split, matched, earlier⟩ := wins.earliest
      have found : rules.find? (fun rule => Pattern.Describes rule.2 (text.take len)) =
          some (kind, pattern) := by
        rw [List.find?_eq_some_iff_append]
        refine ⟨by simpa using matched, before, after, split, fun rule mem => ?_⟩
        simpa using earlier rule mem
      rw [← last, found]
    · have above : len < bound + 1 := Nat.lt_of_le_of_ne below last
      rw [find?_eq_none fun rule mem => wins.greatest rule mem _ above inside]
      exact ih (Nat.le_of_lt_succ above) (Nat.le_of_succ_le inside)

theorem Wins.first? (wins : Wins rules text kind len) : first? rules text = some (kind, len) :=
  wins.upTo wins.inside (Nat.le_refl _)

theorem first?_eq_none (none : ∀ rule ∈ rules, NoBeginning (Pattern.Describes rule.2) text) :
    first? rules text = .none := by
  have all : ∀ bound ≤ text.length, upTo rules text bound = .none := by
    intro bound inside
    induction bound with
    | zero => rfl
    | succ bound ih =>
      rw [upTo, find?_eq_none fun rule mem => none rule mem _ (Nat.succ_pos bound) inside]
      exact ih (Nat.le_of_succ_le inside)
  exact all _ (Nat.le_refl _)

/-- A first rule with the longest match wins against rules that match no more. -/
theorem Wins.head {rule : String × String}
    (longest : IsLongest (Pattern.Describes rule.2) text len)
    (rest : ∀ other ∈ rules, ∀ l, len < l → l ≤ text.length →
      ¬ Pattern.Describes other.2 (text.take l)) : Wins (rule :: rules) text rule.1 len where
  pos := longest.pos
  inside := longest.inside
  greatest other mem l above inside := by
    rcases List.mem_cons.1 mem with rfl | later
    · exact longest.greatest l above inside
    · exact rest other later l above inside
  earliest := ⟨[], rule.2, rules, rfl, longest.holds, fun _ mem => absurd mem List.not_mem_nil⟩

/-- A rule put in front changes nothing if it matches neither as much nor more. -/
theorem Wins.tail {rule : String × String} (wins : Wins rules text kind len)
    (less : ∀ l, len ≤ l → l ≤ text.length → ¬ Pattern.Describes rule.2 (text.take l)) :
    Wins (rule :: rules) text kind len where
  pos := wins.pos
  inside := wins.inside
  greatest other mem l above inside := by
    rcases List.mem_cons.1 mem with rfl | later
    · exact less l (Nat.le_of_lt above) inside
    · exact wins.greatest other later l above inside
  earliest := by
    obtain ⟨before, pattern, after, split, matched, earlier⟩ := wins.earliest
    refine ⟨rule :: before, pattern, after, by rw [split, List.cons_append], matched, ?_⟩
    intro other mem
    rcases List.mem_cons.1 mem with rfl | later
    · exact less len (Nat.le_refl _) wins.inside
    · exact earlier other later

end Munch

namespace Scanner

/-- The token that the compiled rules choose wins, and if there is none, no rule matches. -/
theorem longestOf_spec {rules : List (String × String)} {compiled : List Rule}
    (sound : List.Forall₂ Rule.Implements compiled rules) (text : List Char) :
    (∃ kind len, Munch.Wins rules text kind len ∧ longestOf text compiled = some (kind, len)) ∨
      (∀ rule ∈ rules, NoBeginning (Pattern.Describes rule.2) text) ∧
        longestOf text compiled = none := by
  induction sound with
  | nil => exact .inr ⟨fun rule mem => absurd mem List.not_mem_nil, rfl⟩
  | @cons r rule compiled rules head _ ih =>
    rw [longestOf]
    rcases head.longest_spec text with ⟨own, longest, found⟩ | ⟨none, found⟩
    · rcases ih with ⟨kind, len, wins, later⟩ | ⟨stuck, later⟩
      · rw [found, later]
        by_cases more : own < len
        · refine .inl ⟨kind, len, wins.tail fun l above inside => ?_, if_pos more⟩
          exact longest.greatest l (Nat.lt_of_lt_of_le more above) inside
        · refine .inl ⟨rule.1, own, .head longest fun other mem l above inside => ?_, ?_⟩
          · exact wins.greatest other mem l (Nat.lt_of_le_of_lt (Nat.not_lt.1 more) above) inside
          · rw [← head.kind_eq]
            exact if_neg more
      · rw [found, later]
        refine .inl ⟨rule.1, own, .head longest fun other mem l above inside => ?_, ?_⟩
        · exact stuck other mem l (Nat.zero_lt_of_lt above) inside
        · rw [← head.kind_eq]
    · rw [found]
      rcases ih with ⟨kind, len, wins, later⟩ | ⟨stuck, later⟩
      · refine .inl ⟨kind, len, wins.tail fun l above inside => ?_, later⟩
        exact none l (Nat.lt_of_lt_of_le wins.pos above) inside
      · refine .inr ⟨fun other mem => ?_, later⟩
        rcases List.mem_cons.1 mem with rfl | rest
        · exact none
        · exact stuck other rest

theorem longestOf_eq_first? {rules : List (String × String)} {compiled : List Rule}
    (sound : List.Forall₂ Rule.Implements compiled rules) (text : List Char) :
    longestOf text compiled = Munch.first? rules text := by
  rcases longestOf_spec sound text with ⟨kind, len, wins, found⟩ | ⟨none, found⟩
  · rw [found, wins.first?]
  · rw [found, Munch.first?_eq_none none]

theorem implements_of_compileRules {rules : List (String × String)} {compiled : List Rule}
    (ok : compileRules rules = .ok compiled) : List.Forall₂ Rule.Implements compiled rules := by
  induction rules generalizing compiled with
  | nil =>
    cases ok
    exact .nil
  | cons rule rest ih =>
    rw [compileRules] at ok
    split at ok
    · cases ok
    next first made =>
      split at ok
      · cases ok
      next later others =>
        cases ok
        exact .cons (Rule.implements_of_ofPattern made) (ih others)

/-- What a scan says, without the tokens before a failure. -/
def Scan.outcome (scan : Scan) : Except Nat (List Token) :=
  match scan.stuck with
  | none => .ok scan.tokens
  | some offset => .error offset

theorem outcome_scanFrom {rules : List (String × String)} {s : Scanner}
    (sound : List.Forall₂ Rule.Implements s.rules rules) (found : List Token) (offset : Nat)
    (text : List Char) :
    (s.scanFrom found offset text).outcome =
      (Munch.scanFrom rules offset text).map fun tokens => found.reverse ++ tokens := by
  fun_induction scanFrom s found offset text with
  | case1 found offset text last =>
    rw [Munch.scanFrom_nil last]
    simp [Scan.outcome, Except.map]
  | case2 found offset text more stuck =>
    rw [first?, longestOf_eq_first? sound] at stuck
    rw [Munch.scanFrom_stuck more stuck]
    rfl
  | case3 found offset text more kind len first lexeme ih =>
    rw [first?, longestOf_eq_first? sound] at first
    rw [ih, Munch.scanFrom_token more first]
    cases Munch.scanFrom rules (offset + len) (text.drop len) with
    | error e => rfl
    | ok tokens => simp [Except.map, lexeme]

theorem rules_of_ofRules {rules : List (String × String)} {s : Scanner}
    (compiled : ofRules rules = .ok s) : List.Forall₂ Rule.Implements s.rules rules := by
  rw [ofRules] at compiled
  split at compiled
  · cases compiled
  next made =>
    cases compiled
    exact implements_of_compileRules made

theorem mapError_scan (s : Scanner) (text : String) :
    (s.scan text).mapError Diagnostic.offset = (s.run text).outcome := by
  simp only [scan, Scan.outcome]
  cases (s.run text).stuck <;> rfl

theorem scan_outcome {rules : List (String × String)} {s : Scanner}
    (compiled : ofRules rules = .ok s) (text : String) :
    (s.scan text).mapError Diagnostic.offset = Munch.scan rules text := by
  rw [mapError_scan, run, outcome_scanFrom (rules_of_ofRules compiled), Munch.scan]
  cases Munch.scanFrom rules 0 text.toList <;> rfl

theorem exists_ofText_of_implements {rules : List (String × String)} {compiled : List Rule}
    (sound : List.Forall₂ Rule.Implements compiled rules) :
    ∀ rule ∈ rules, ∃ r, Regex.ofText rule.2 = .ok r := by
  induction sound with
  | nil => exact fun rule mem => absurd mem List.not_mem_nil
  | cons head _ ih =>
    intro rule mem
    rcases List.mem_cons.1 mem with rfl | later
    · exact ⟨_, head.compiles⟩
    · exact ih rule later

/-- Rules whose patterns can be read, and are not of an absurd length, make a scanner. -/
theorem exists_ofRules {rules : List (String × String)}
    (readable : ∀ rule ∈ rules, rule.2.length < 2 ^ 63 ∧ ∃ p, Pattern.parse rule.2 = .ok p) :
    ∃ s, ofRules rules = .ok s := by
  have made : ∃ compiled, compileRules rules = .ok compiled := by
    induction rules with
    | nil => exact ⟨[], rfl⟩
    | cons rule rest ih =>
      obtain ⟨others, rest⟩ := ih fun other mem => readable other (List.mem_cons_of_mem _ mem)
      obtain ⟨short, p, parsed⟩ := readable rule List.mem_cons_self
      obtain ⟨n, automaton⟩ := Pattern.exists_toNfa?_of_parse short parsed
      simp [compileRules, Rule.ofPattern, Regex.ofText, Nfa.ofText, parsed, Pattern.compile,
        automaton, rest]
  obtain ⟨compiled, ok⟩ := made
  rw [ofRules, ok]
  exact ⟨_, rfl⟩

/-- A scanner does what the scanner without automata does, for the same rules: it finds the same
tokens or fails at the same place. What it finds is not empty and makes up the text. The language of
a rule is also what its compiled pattern matches. -/
theorem scan_spec {rules : List (String × String)} {s : Scanner} (compiled : ofRules rules = .ok s)
    (text : String) :
    (s.scan text).mapError Diagnostic.offset = Munch.scan rules text ∧
      (∀ tokens, s.scan text = .ok tokens →
        (∀ t ∈ tokens, t.lexeme ≠ "") ∧ String.join (tokens.map Token.lexeme) = text) ∧
      ∀ rule ∈ rules, ∃ r, Regex.ofText rule.2 = .ok r ∧
        ∀ w : String, r.isMatch w = true ↔ Pattern.Describes rule.2 w.toList := by
  refine ⟨scan_outcome compiled text, fun tokens ok => ?_, fun rule mem => ?_⟩
  · have found := scan_outcome compiled text
    rw [ok] at found
    obtain ⟨nonempty, whole⟩ := Munch.lexemes_of_scanFrom found.symm
    refine ⟨nonempty, String.toList_inj.1 ?_⟩
    rw [String.toList_join, List.flatMap_map, whole]
  · obtain ⟨r, made⟩ := exists_ofText_of_implements (rules_of_ofRules compiled) rule mem
    exact ⟨r, made, fun w => Regex.isMatch_iff_describes made w.toList⟩

theorem scan_spec_keyword : ∃ s, ofRules [("keyword", "ab"), ("word", "[a-b]+")] = .ok s ∧
    (s.scan "ab").mapError Diagnostic.offset = .ok [⟨"keyword", "ab"⟩] := by
  have letter : ∀ {c : Char}, Pattern.isLiteral c = true → Pattern.Spells .item [c] (.char c) :=
    fun literal => .plain (.literal literal)
  have both : Pattern.Spells .item ['[', 'a', '-', 'b', ']'] (.range 'a' 'b') :=
    .plain (.bracket (by decide) (by decide) (by decide))
  have keyword : Pattern.parse "ab" = .ok (.seq (.char 'a') (.char 'b')) :=
    ((letter (by decide)).one.more (letter (by decide))).single.readable
  have word : Pattern.parse "[a-b]+" = .ok (.plus (.range 'a' 'b')) :=
    both.plus.one.single.readable
  obtain ⟨s, compiled⟩ : ∃ s, ofRules [("keyword", "ab"), ("word", "[a-b]+")] = .ok s := by
    refine exists_ofRules ?_
    simp only [List.forall_mem_cons]
    exact ⟨⟨by decide, _, keyword⟩, ⟨by decide, _, word⟩, by simp⟩
  refine ⟨s, compiled, (scan_spec compiled "ab").1.trans ?_⟩
  have wins : Munch.Wins [("keyword", "ab"), ("word", "[a-b]+")] ['a', 'b'] "keyword" 2 := {
    pos := by decide
    inside := by decide
    greatest := fun _ _ l above inside => absurd inside (Nat.not_le_of_lt above)
    earliest := ⟨[], "ab", _, rfl, ⟨_, keyword, .seq (.char 'a') (.char 'b')⟩, by simp⟩ }
  rw [Munch.scan]
  refine (Munch.scanFrom_token (by decide) wins.first?).trans ?_
  rw [Munch.scanFrom_nil (by decide)]
  rfl

end Scanner

end Lexing

namespace Lexing

namespace Pattern

/-- Literal characters spell a pattern that matches these characters and nothing else. -/
theorem exists_spells_literals {word : List Char} (nonempty : word ≠ [])
    (literal : ∀ c ∈ word, isLiteral c = true) :
    ∃ p, Spells .sequence word p ∧ ∀ w, p.Matches w ↔ w = word := by
  induction word using List.reverseRecOn with
  | nil => exact absurd rfl nonempty
  | append_singleton before c ih =>
    have last : Spells .item [c] (char c) := .plain (.literal (literal c (by simp)))
    by_cases first : before = []
    · subst first
      exact ⟨char c, last.one, fun w => matches_char_iff⟩
    · obtain ⟨p, spells, matched⟩ := ih first fun d mem => literal d (List.mem_append_left _ mem)
      refine ⟨seq p (char c), spells.more last, fun w => ?_⟩
      simp [matches_seq_iff, matches_char_iff, matched]

/-- A text that is a pattern without operators, and not of an absurd length. -/
structure IsWord (text : String) : Prop where
  short : text.length < 2 ^ 63
  nonempty : text.toList ≠ []
  literal : text.toList.all isLiteral = true

theorem IsWord.exists_parse {text : String} (h : IsWord text) :
    ∃ p, parse text = .ok p ∧ ∀ w, p.Matches w ↔ w = text.toList := by
  obtain ⟨p, spells, matched⟩ := exists_spells_literals h.nonempty (List.all_eq_true.1 h.literal)
  exact ⟨p, spells.single.readable, matched⟩

theorem IsWord.describes_iff {text : String} (h : IsWord text) (w : List Char) :
    Describes text w ↔ w = text.toList := by
  obtain ⟨p, parsed, matched⟩ := h.exists_parse
  exact (Pattern.describes_iff parsed).trans (matched w)

end Pattern

namespace Scanner

theorem first?_eq {rules : List (String × String)} {s : Scanner} (compiled : ofRules rules = .ok s)
    (text : List Char) : s.first? text = Munch.first? rules text :=
  longestOf_eq_first? (rules_of_ofRules compiled) text

theorem exists_ofRules_words {rules : List (String × String)}
    (words : ∀ rule ∈ rules, Pattern.IsWord rule.2) : ∃ s, ofRules rules = .ok s := by
  refine exists_ofRules fun rule mem => ⟨(words rule mem).short, ?_⟩
  obtain ⟨p, parsed, _⟩ := (words rule mem).exists_parse
  exact ⟨p, parsed⟩

end Scanner

end Lexing
