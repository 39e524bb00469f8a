import Lexing.Proofs.Dfa.Run
import Lexing.Proofs.Regex
import Lexing.Scanner.Basic

set_option autoImplicit false

namespace Lexing

section Longest

variable {words later : List Char → Prop} {c : Char} {rest : List Char} {len : Nat}

/-- The first `len` characters of a text are its longest beginning with a property. The empty
beginning does not count. -/
structure IsLongest (words : List Char → Prop) (text : List Char) (len : Nat) : Prop where
  pos : 0 < len
  inside : len ≤ text.length
  holds : words (text.take len)
  greatest : ∀ l, len < l → l ≤ text.length → ¬ words (text.take l)

/-- No beginning of a text but the empty one has a property. -/
def NoBeginning (words : List Char → Prop) (text : List Char) : Prop :=
  ∀ l, 0 < l → l ≤ text.length → ¬ words (text.take l)

theorem noBeginning_nil : NoBeginning words [] := by
  intro l positive inside
  rw [List.length_nil] at inside
  omega

theorem words_take_cons (shift : ∀ w, words (c :: w) ↔ later w) {l : Nat} (positive : 0 < l) :
    words ((c :: rest).take l) ↔ later (rest.take (l - 1)) := by
  have split : l = l - 1 + 1 := by omega
  rw [split, List.take_succ_cons, shift]
  rfl

theorem noBeginning_cons (shift : ∀ w, words (c :: w) ↔ later w) (empty : ¬ later [])
    (none : NoBeginning later rest) : NoBeginning words (c :: rest) := by
  intro l positive inside
  rw [List.length_cons] at inside
  rw [words_take_cons shift positive]
  by_cases first : l - 1 = 0
  · rw [first]
    exact empty
  · exact none (l - 1) (by omega) (by omega)

theorem isLongest_one (shift : ∀ w, words (c :: w) ↔ later w) (empty : later [])
    (none : NoBeginning later rest) : IsLongest words (c :: rest) 1 where
  pos := by omega
  inside := by
    rw [List.length_cons]
    omega
  holds := (shift []).2 empty
  greatest l above inside := by
    rw [List.length_cons] at inside
    rw [words_take_cons shift (by omega)]
    exact none (l - 1) (by omega) (by omega)

theorem IsLongest.cons (shift : ∀ w, words (c :: w) ↔ later w) (longest : IsLongest later rest len) :
    IsLongest words (c :: rest) (len + 1) where
  pos := by omega
  inside := by
    have inside := longest.inside
    rw [List.length_cons]
    omega
  holds := (shift _).2 longest.holds
  greatest l above inside := by
    rw [List.length_cons] at inside
    rw [words_take_cons shift (by omega)]
    exact longest.greatest (l - 1) (by omega) (by omega)

end Longest

namespace Rule

/-- The live states of a rule are those from which a word leads to acceptance. -/
def LiveExact (r : Rule) : Prop :=
  ∀ q, r.live.getD q false = true ↔ ∃ w, r.dfa.outcome q w = some true

theorem longestFrom_dead {r : Rule} {q : State} {c : Char}
    (dead : ∀ target, r.dfa.next? q c = some target → ¬ r.live.getD target false = true)
    (read : Nat) (seen : Option Nat) (rest : List Char) :
    r.longestFrom q read seen (c :: rest) = seen := by
  rw [longestFrom]
  cases next : r.dfa.next? q c with
  | none => rfl
  | some target => exact if_neg (dead target next)

theorem longestFrom_live {r : Rule} {q target : State} {c : Char}
    (next : r.dfa.next? q c = some target) (live : r.live.getD target false = true)
    (read : Nat) (seen : Option Nat) (rest : List Char) :
    r.longestFrom q read seen (c :: rest) = r.longestFrom target (read + 1)
      (if r.dfa.isAccepting target then some (read + 1) else seen) rest := by
  rw [longestFrom, next]
  exact if_pos live

theorem longestFrom_spec {r : Rule} (exact : r.LiveExact) (q : State) (read : Nat)
    (seen : Option Nat) (text : List Char) :
    (∃ len, IsLongest (fun w => r.dfa.outcome q w = some true) text len ∧
        r.longestFrom q read seen text = some (read + len)) ∨
      NoBeginning (fun w => r.dfa.outcome q w = some true) text ∧
        r.longestFrom q read seen text = seen := by
  induction text generalizing q read seen with
  | nil => exact .inr ⟨noBeginning_nil, rfl⟩
  | cons c rest ih =>
    by_cases alive : ∃ target, r.dfa.next? q c = some target ∧ r.live.getD target false = true
    · obtain ⟨target, next, live⟩ := alive
      have shift : ∀ w, r.dfa.outcome q (c :: w) = some true ↔
          r.dfa.outcome target w = some true := by
        intro w
        rw [Dfa.outcome_cons, next, Option.bind_some]
      rw [longestFrom_live next live]
      rcases ih target (read + 1) (if r.dfa.isAccepting target then some (read + 1) else seen) with
        ⟨len, longest, found⟩ | ⟨none, found⟩
      · refine .inl ⟨len + 1, longest.cons shift, ?_⟩
        rw [found, Nat.add_assoc, Nat.add_comm 1]
      · rw [found]
        by_cases accepting : r.dfa.isAccepting target = true
        · rw [if_pos accepting]
          exact .inl ⟨1, isLongest_one shift (congrArg some accepting) none, rfl⟩
        · rw [if_neg accepting]
          exact .inr ⟨noBeginning_cons shift (fun h => accepting (Option.some.inj h)) none, rfl⟩
    · have dead : ∀ target, r.dfa.next? q c = some target → ¬ r.live.getD target false = true :=
        fun target next live => alive ⟨target, next, live⟩
      -- no word that begins with `c` leads to acceptance
      have shift : ∀ w, r.dfa.outcome q (c :: w) = some true ↔ False := by
        intro w
        refine iff_false_intro fun accepted => ?_
        rw [Dfa.outcome_cons, Option.bind_eq_some_iff] at accepted
        obtain ⟨target, next, later⟩ := accepted
        exact dead target next ((exact target).2 ⟨w, later⟩)
      exact .inr ⟨noBeginning_cons shift id fun _ _ _ => id, longestFrom_dead dead read seen rest⟩

end Rule

/-- Whether a word is in the language of the pattern that a text spells. -/
def Pattern.Describes (text : String) (w : List Char) : Prop :=
  ∃ p, parse text = .ok p ∧ p.Matches w

theorem Pattern.describes_iff {text : String} {p : Pattern} (parsed : parse text = .ok p)
    {w : List Char} : Describes text w ↔ p.Matches w := by
  constructor
  · rintro ⟨q, other, matched⟩
    rw [parsed] at other
    exact Except.ok.inj other ▸ matched
  · intro matched
    exact ⟨p, parsed, matched⟩

/-- The automaton of a compiled text, which spells a pattern then. -/
theorem Regex.ofText_eq_ok {text : String} {r : Regex} (compiled : ofText text = .ok r) :
    ∃ p n, Pattern.parse text = .ok p ∧ p.toNfa? = some n ∧ r.dfa = n.determinize.minimize := by
  simp only [ofText, Nfa.ofText, Pattern.compile] at compiled
  cases parsed : Pattern.parse text with
  | error e => simp [parsed] at compiled
  | ok p =>
    cases made : p.toNfa? with
    | none => simp [parsed, made] at compiled
    | some n =>
      simp only [parsed, made] at compiled
      cases compiled
      exact ⟨p, n, rfl, made, rfl⟩

theorem Regex.isMatch_iff_describes {text : String} {r : Regex} (compiled : ofText text = .ok r)
    (w : List Char) : r.dfa.accepts w = true ↔ Pattern.Describes text w := by
  obtain ⟨p, n, parsed, made, same⟩ := ofText_eq_ok compiled
  rw [same, accepts_iff_matches made, Pattern.describes_iff parsed]

theorem Regex.wellFormed_of_ofText {text : String} {r : Regex} (compiled : ofText text = .ok r) :
    r.dfa.WellFormed := by
  obtain ⟨p, n, _, _, same⟩ := ofText_eq_ok compiled
  exact same ▸ Dfa.wellFormed_minimize n.wellFormed_determinize

namespace Rule

/-- A rule does what its kind and its pattern say. -/
structure Implements (r : Rule) (source : String × String) : Prop where
  kind_eq : r.kind = source.1
  compiles : Regex.ofText source.2 = .ok ⟨r.dfa⟩
  live_exact : r.LiveExact

theorem implements_of_ofPattern {kind text : String} {r : Rule}
    (compiled : ofPattern kind text = .ok r) : r.Implements (kind, text) := by
  rw [ofPattern] at compiled
  split at compiled
  · cases compiled
  next regex made =>
    cases compiled
    exact {
      kind_eq := rfl
      compiles := made
      live_exact := fun q => Dfa.live_getD_iff (Regex.wellFormed_of_ofText made) }

theorem Implements.outcome_iff {r : Rule} {source : String × String} (sound : r.Implements source)
    (w : List Char) : r.dfa.outcome r.dfa.start w = some true ↔ Pattern.Describes source.2 w := by
  rw [← Regex.isMatch_iff_describes sound.compiles, Dfa.accepts_eq_outcome]
  cases r.dfa.outcome r.dfa.start w <;> simp

theorem Implements.longest_spec {r : Rule} {source : String × String} (sound : r.Implements source)
    (text : List Char) :
    (∃ len, IsLongest (Pattern.Describes source.2) text len ∧ r.longest text = some len) ∨
      NoBeginning (Pattern.Describes source.2) text ∧ r.longest text = none := by
  have same : (fun w => r.dfa.outcome r.dfa.start w = some true) = Pattern.Describes source.2 :=
    funext fun w => propext (sound.outcome_iff w)
  have spec := longestFrom_spec sound.live_exact r.dfa.start 0 none text
  rw [same] at spec
  simpa only [Nat.zero_add, longest] using spec

end Rule

end Lexing
