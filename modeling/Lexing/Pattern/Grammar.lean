import Lexing.Pattern.Basic

set_option autoImplicit false

namespace Lexing.Pattern

/-- The levels of the grammar, from the loosest binding to the tightest. -/
inductive Level where
  | alternation
  | sequence
  | item
  | atom
  deriving DecidableEq, Repr

/-- The texts of each level with the patterns that they spell. -/
inductive Spells : Level → List Char → Pattern → Prop where
  | single {s : List Char} {p : Pattern} : Spells .sequence s p → Spells .alternation s p
  | bar {s t : List Char} {p q : Pattern} :
      Spells .sequence s p → Spells .alternation t q →
      Spells .alternation (s ++ '|' :: t) (.alt p q)
  | one {s : List Char} {p : Pattern} : Spells .item s p → Spells .sequence s p
  | more {s t : List Char} {p q : Pattern} :
      Spells .sequence s p → Spells .item t q → Spells .sequence (s ++ t) (.seq p q)
  | plain {s : List Char} {p : Pattern} : Spells .atom s p → Spells .item s p
  | opt {s : List Char} {p : Pattern} : Spells .item s p → Spells .item (s ++ ['?']) (.opt p)
  | star {s : List Char} {p : Pattern} : Spells .item s p → Spells .item (s ++ ['*']) (.star p)
  | plus {s : List Char} {p : Pattern} : Spells .item s p → Spells .item (s ++ ['+']) (.plus p)
  | spaceBefore {s : List Char} {p : Pattern} : Spells .item s p → Spells .item (' ' :: s) p
  | spaceAfter {s : List Char} {p : Pattern} : Spells .item s p → Spells .item (s ++ [' ']) p
  | literal {c : Char} : isLiteral c → Spells .atom [c] (.char c)
  | escaped {c : Char} : isEscapable c → Spells .atom ['\\', c] (.char c)
  | bracket {first last : Char} :
      Text.isAlphanumeric first → Text.isAlphanumeric last → first ≤ last →
      Spells .atom ['[', first, '-', last, ']'] (.range first last)
  | group {s : List Char} {p : Pattern} :
      Spells .alternation s p → Spells .atom ('(' :: s ++ [')']) p

/-- Patterns that can be written: single characters must be literal or escapable, and the ends of a
range letters or digits in order. -/
def WellFormed : Pattern → Prop
  | char c => isLiteral c ∨ isEscapable c
  | range first last => Text.isAlphanumeric first ∧ Text.isAlphanumeric last ∧ first ≤ last
  | seq left right => left.WellFormed ∧ right.WellFormed
  | alt left right => left.WellFormed ∧ right.WellFormed
  | opt body => body.WellFormed
  | star body => body.WellFormed
  | plus body => body.WellFormed

def parenthesized (text : List Char) : List Char := '(' :: text ++ [')']

def print : Pattern → List Char
  | char c => if isLiteral c then [c] else ['\\', c]
  | range first last => ['[', first, '-', last, ']']
  | seq left right => parenthesized left.print ++ parenthesized right.print
  | alt left right => parenthesized left.print ++ '|' :: parenthesized right.print
  | opt body => parenthesized body.print ++ ['?']
  | star body => parenthesized body.print ++ ['*']
  | plus body => parenthesized body.print ++ ['+']

/-- A pattern without parts. -/
inductive Leaf where
  | char (c : Char)
  | range (first last : Char)
  deriving DecidableEq, Repr

/-- What is written for a leaf: its character, or the two ends of its range. -/
def Leaf.characters : Leaf → List Char
  | char c => [c]
  | range first last => [first, last]

@[simp] def leaves : Pattern → List Leaf
  | char c => [.char c]
  | range first last => [.range first last]
  | seq left right | alt left right => left.leaves ++ right.leaves
  | opt body | star body | plus body => body.leaves

def characters (p : Pattern) : List Char := p.leaves.flatMap Leaf.characters

theorem mem_characters_iff {p : Pattern} {c : Char} : c ∈ p.characters ↔
    .char c ∈ p.leaves ∨ ∃ d, .range c d ∈ p.leaves ∨ .range d c ∈ p.leaves := by
  rw [characters, List.mem_flatMap]
  constructor
  · rintro ⟨d | ⟨first, last⟩, mem, own⟩
    · obtain rfl := List.mem_singleton.1 own
      exact .inl mem
    · rcases List.mem_cons.1 own with rfl | second
      · exact .inr ⟨last, .inl mem⟩
      · obtain rfl := List.mem_singleton.1 second
        exact .inr ⟨first, .inr mem⟩
  · rintro (mem | ⟨d, mem | mem⟩)
    · exact ⟨_, mem, List.mem_singleton_self c⟩
    · exact ⟨_, mem, List.mem_cons_self⟩
    · exact ⟨_, mem, List.mem_cons_of_mem d (List.mem_singleton_self c)⟩

/-- The leaves that are written in a text: characters behind a backslash, ranges between brackets and
literal characters. -/
def written : List Char → List Leaf
  | [] => []
  | '\\' :: c :: rest => .char c :: written rest
  | '[' :: first :: '-' :: last :: ']' :: rest => .range first last :: written rest
  | c :: rest => if isLiteral c then .char c :: written rest else written rest

end Lexing.Pattern
