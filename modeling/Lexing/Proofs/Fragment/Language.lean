import Lexing.Nfa.Run
import Lexing.Pattern.Language
import Lexing.Proofs.Fragment.Placement

set_option autoImplicit false

namespace Lexing

theorem Nfa.Path.mono {m n : Nfa} (sub : ∀ e ∈ m.edges, e ∈ n.edges) {p q : State}
    {w : List Char} (path : m.Path p w q) : n.Path p w q := by
  induction path with
  | here q => exact .here q
  | silent edge _ ih => exact .silent (sub _ edge) ih
  | letter edge _ ih => exact .letter (sub _ edge) ih

/-- A path from a state that no edge leaves goes nowhere. -/
theorem Nfa.Path.stuck {n : Nfa} {p q : State} {w : List Char} (path : n.Path p w q)
    (last : ∀ e ∈ n.edges, e.source ≠ p) : w = [] ∧ p = q := by
  cases path with
  | here => exact ⟨rfl, rfl⟩
  | silent edge _ => exact absurd rfl (last _ edge)
  | letter edge _ => exact absurd rfl (last _ edge)

/-- A path from a state that only silent edges leave goes on from the end of one of them. -/
theorem Nfa.Path.branch {n : Nfa} {p q : State} {w : List Char} (path : n.Path p w q)
    (apart : p ≠ q) {branches : List State}
    (only : ∀ e ∈ n.edges, e.source = p → e.label = none ∧ e.target ∈ branches) :
    ∃ r ∈ branches, n.Path r w q := by
  cases path with
  | here => exact absurd rfl apart
  | silent edge rest => exact ⟨_, (only _ edge rfl).2, rest⟩
  | letter edge _ => cases (only _ edge rfl).1

namespace Fragment

/-- There is a path from one state to another along edges of the fragment that spells a word. -/
def Leads (f : Fragment) (p : State) (w : List Char) (q : State) : Prop :=
  (Nfa.ofEdges f.edges).Path p w q

/-- The words from the way in to the way out are those of a language. -/
def Recognizes (f : Fragment) (words : List Char → Prop) : Prop :=
  ∀ w, f.Leads f.start w f.accept ↔ words w

theorem recognizes_letters (base : Nat) (cs : List Char) :
    (letters base cs).Recognizes fun w => ∃ c ∈ cs, w = [c] := by
  intro w
  constructor
  · intro path
    cases path with
    | silent edge _ => simp [letters] at edge
    | letter edge rest =>
      obtain ⟨d, mem, same⟩ := List.mem_map.1 (Nfa.mem_edges_ofEdges.1 edge)
      cases same
      obtain ⟨rfl, _⟩ := rest.stuck (placed_letters base cs).stuck
      exact ⟨_, mem, rfl⟩
  · rintro ⟨c, mem, rfl⟩
    exact .letter (Nfa.mem_edges_ofEdges.2 (List.mem_map.2 ⟨c, mem, rfl⟩)) (.here _)

/-- How a fragment sits in an automaton: its edges are there, and the other edges that leave its
states are silent ones from its way out to some `exits`. -/
structure Within (base : Nat) (f : Fragment) (exits : List State) (n : Nfa) : Prop where
  edge_mem : ∀ e ∈ f.edges, e ∈ n.edges
  edge_or_exit : ∀ e ∈ n.edges, base ≤ e.source → e.source < f.next →
    e ∈ f.edges ∨ e.label = none ∧ e.source = f.accept ∧ e.target ∈ exits

theorem Within.leads {base : Nat} {f : Fragment} {exits : List State} {n : Nfa}
    (within : f.Within base exits n) {p q : State} {w : List Char} (path : f.Leads p w q) :
    n.Path p w q :=
  path.mono fun e mem => within.edge_mem e (Nfa.mem_edges_ofEdges.1 mem)

/-- Without exits a path stays in the fragment. -/
theorem Within.stays {base : Nat} {f : Fragment} {n : Nfa} (placed : f.Placed base)
    (within : f.Within base [] n) {p q : State} {w : List Char} (path : n.Path p w q)
    (lower : base ≤ p) (upper : p < f.next) : f.Leads p w q := by
  have inner : ∀ e ∈ n.edges, base ≤ e.source → e.source < f.next →
      e ∈ f.edges ∧ base ≤ e.target ∧ e.target < f.next := by
    intro e mem above below
    rcases within.edge_or_exit e mem above below with own | ⟨_, _, exit⟩
    · exact ⟨own, (placed.edge_ge e own).2, (placed.edge_lt e own).2⟩
    · exact absurd exit List.not_mem_nil
  induction path with
  | here q => exact .here q
  | silent edge _ ih =>
    obtain ⟨own, above, below⟩ := inner _ edge lower upper
    exact .silent (Nfa.mem_edges_ofEdges.2 own) (ih above below)
  | letter edge _ ih =>
    obtain ⟨own, above, below⟩ := inner _ edge lower upper
    exact .letter (Nfa.mem_edges_ofEdges.2 own) (ih above below)

/-- A path from a state of the fragment to one outside first goes to the way out and then through an
exit. What is spelled from an exit on may be described by a property that is proved with the help
of this statement itself, for an exit may lead back into the fragment. -/
theorem Within.leaves {base : Nat} {f : Fragment} {exits : List State} {n : Nfa}
    (placed : f.Placed base) (within : f.Within base exits n) {q : State} (outside : f.next ≤ q)
    (rest : List Char → Prop)
    (exit : ∀ p ∈ exits, ∀ v, n.Path p v q →
      (base ≤ p → p < f.next → ∃ u t, v = u ++ t ∧ f.Leads p u f.accept ∧ rest t) → rest v)
    {p : State} {w : List Char} (path : n.Path p w q) (lower : base ≤ p) (upper : p < f.next) :
    ∃ u v, w = u ++ v ∧ f.Leads p u f.accept ∧ rest v := by
  induction path with
  | here q => exact absurd upper (Nat.not_lt.2 outside)
  | silent edge tail ih =>
    rcases within.edge_or_exit _ edge lower upper with own | ⟨_, rfl, out⟩
    · obtain ⟨u, v, rfl, leads, after⟩ :=
        ih outside exit (placed.edge_ge _ own).2 (placed.edge_lt _ own).2
      exact ⟨u, v, rfl, .silent (Nfa.mem_edges_ofEdges.2 own) leads, after⟩
    · exact ⟨[], _, rfl, .here _, exit _ out _ tail (ih outside exit)⟩
  | letter edge tail ih =>
    rcases within.edge_or_exit _ edge lower upper with own | ⟨labelled, _, _⟩
    · obtain ⟨u, v, rfl, leads, after⟩ :=
        ih outside exit (placed.edge_ge _ own).2 (placed.edge_lt _ own).2
      exact ⟨_ :: u, v, rfl, .letter (Nfa.mem_edges_ofEdges.2 own) leads, after⟩
    · cases labelled

section Parts

variable {base : Nat} {f g : Fragment}

theorem within_seq_left (right : g.Placed f.next) :
    f.Within base [g.start] (.ofEdges (f.seq g).edges) where
  edge_mem e mem := Nfa.mem_edges_ofEdges.2 (mem_edges_seq.2 (.inl mem))
  edge_or_exit e mem _ below := by
    rcases mem_edges_seq.1 (Nfa.mem_edges_ofEdges.1 mem) with own | other | rfl
    · exact .inl own
    · exact absurd below (Nat.not_lt.2 (right.edge_ge e other).1)
    · exact .inr ⟨rfl, rfl, List.mem_singleton_self _⟩

theorem within_seq_right (left : f.Placed base) :
    g.Within f.next [] (.ofEdges (f.seq g).edges) where
  edge_mem e mem := Nfa.mem_edges_ofEdges.2 (mem_edges_seq.2 (.inr (.inl mem)))
  edge_or_exit e mem above _ := by
    rcases mem_edges_seq.1 (Nfa.mem_edges_ofEdges.1 mem) with other | own | rfl
    · exact absurd (left.edge_lt e other).1 (Nat.not_lt.2 above)
    · exact .inl own
    · exact absurd left.accept_lt (Nat.not_lt.2 above)

theorem Recognizes.seq {words more : List Char → Prop} (left : f.Placed base)
    (right : g.Placed f.next) (first : f.Recognizes words) (second : g.Recognizes more) :
    (f.seq g).Recognizes fun w => ∃ u v, w = u ++ v ∧ words u ∧ more v := by
  intro w
  have inLeft : f.Within base _ _ := within_seq_left right
  have inRight : g.Within f.next _ _ := within_seq_right left
  constructor
  · intro path
    have outside : f.next ≤ (f.seq g).accept :=
      Nat.le_trans right.start_ge (Nat.le_of_lt right.start_lt_accept)
    obtain ⟨u, v, rfl, leads, rest⟩ := inLeft.leaves left outside more
      (fun p exit v path _ => by
        cases List.mem_singleton.1 exit
        exact (second v).1 (inRight.stays right path right.start_ge right.start_lt))
      path left.start_ge left.start_lt
    exact ⟨u, v, rfl, (first u).1 leads, rest⟩
  · rintro ⟨u, v, rfl, head, tail⟩
    have link : ⟨f.accept, none, g.start⟩ ∈ (Nfa.ofEdges (f.seq g).edges).edges :=
      Nfa.mem_edges_ofEdges.2 (mem_edges_seq.2 (.inr (.inr rfl)))
    exact (inLeft.leads ((first u).2 head)).append (.silent link (inRight.leads ((second v).2 tail)))

theorem within_alt_left (right : g.Placed f.next) :
    f.Within base [g.next + 1] (.ofEdges (f.alt g).edges) where
  edge_mem e mem := Nfa.mem_edges_ofEdges.2 (mem_edges_alt.2 (.inl mem))
  edge_or_exit e mem _ below := by
    rcases mem_edges_alt.1 (Nfa.mem_edges_ofEdges.1 mem) with own | other | rfl | rfl | rfl | rfl
    · exact .inl own
    · exact absurd below (Nat.not_lt.2 (right.edge_ge e other).1)
    · exact absurd below (Nat.not_lt.2 right.base_le)
    · exact absurd below (Nat.not_lt.2 right.base_le)
    · exact .inr ⟨rfl, rfl, List.mem_singleton_self _⟩
    · exact absurd below (Nat.not_lt.2 right.accept_ge)

theorem within_alt_right (left : f.Placed base) :
    g.Within f.next [g.next + 1] (.ofEdges (f.alt g).edges) where
  edge_mem e mem := Nfa.mem_edges_ofEdges.2 (mem_edges_alt.2 (.inr (.inl mem)))
  edge_or_exit e mem above below := by
    rcases mem_edges_alt.1 (Nfa.mem_edges_ofEdges.1 mem) with other | own | rfl | rfl | rfl | rfl
    · exact absurd (left.edge_lt e other).1 (Nat.not_lt.2 above)
    · exact .inl own
    · exact absurd below (Nat.lt_irrefl _)
    · exact absurd below (Nat.lt_irrefl _)
    · exact absurd left.accept_lt (Nat.not_lt.2 above)
    · exact .inr ⟨rfl, rfl, List.mem_singleton_self _⟩

/-- An alternation starts with silent edges to its parts. -/
theorem branch_alt_start (left : f.Placed base) (right : g.Placed f.next) :
    ∀ e ∈ (Nfa.ofEdges (f.alt g).edges).edges, e.source = g.next →
      e.label = none ∧ e.target ∈ [f.start, g.start] := by
  intro e mem same
  have apart : ∀ {q : State}, q < g.next → q ≠ g.next := Nat.ne_of_lt
  rcases mem_edges_alt.1 (Nfa.mem_edges_ofEdges.1 mem) with h | h | rfl | rfl | rfl | rfl
  · exact absurd same (apart (Nat.lt_of_lt_of_le (left.edge_lt e h).1 right.base_le))
  · exact absurd same (apart (right.edge_lt e h).1)
  · exact ⟨rfl, by simp⟩
  · exact ⟨rfl, by simp⟩
  · exact absurd same (apart (Nat.lt_of_lt_of_le left.accept_lt right.base_le))
  · exact absurd same (apart right.accept_lt)

theorem Recognizes.alt {words more : List Char → Prop} (left : f.Placed base)
    (right : g.Placed f.next) (first : f.Recognizes words) (second : g.Recognizes more) :
    (f.alt g).Recognizes fun w => words w ∨ more w := by
  intro w
  have inLeft : f.Within base _ _ := within_alt_left right
  have inRight : g.Within f.next _ _ := within_alt_right left
  constructor
  · intro path
    -- Behind the exit there is nothing more to spell.
    have done : ∀ p ∈ [g.next + 1], ∀ v,
        (Nfa.ofEdges (f.alt g).edges).Path p v (f.alt g).accept → v = [] := by
      intro p exit v rest
      cases List.mem_singleton.1 exit
      exact (rest.stuck (left.alt right).stuck).1
    obtain ⟨r, branch, rest⟩ :=
      path.branch (Nat.ne_of_lt (Nat.lt_succ_self g.next)) (branch_alt_start left right)
    rw [List.mem_cons, List.mem_singleton] at branch
    rcases branch with rfl | rfl
    · obtain ⟨u, v, rfl, leads, rfl⟩ := inLeft.leaves left
        (Nat.le_succ_of_le right.base_le) (· = []) (fun p exit v path _ => done p exit v path)
        rest left.start_ge left.start_lt
      rw [List.append_nil]
      exact .inl ((first u).1 leads)
    · obtain ⟨u, v, rfl, leads, rfl⟩ := inRight.leaves right
        (Nat.le_succ g.next) (· = []) (fun p exit v path _ => done p exit v path)
        rest right.start_ge right.start_lt
      rw [List.append_nil]
      exact .inr ((second u).1 leads)
  · have added : ∀ e, (e = ⟨g.next, none, f.start⟩ ∨ e = ⟨g.next, none, g.start⟩ ∨
        e = ⟨f.accept, none, g.next + 1⟩ ∨ e = ⟨g.accept, none, g.next + 1⟩) →
        e ∈ (Nfa.ofEdges (f.alt g).edges).edges :=
      fun e h => Nfa.mem_edges_ofEdges.2 (mem_edges_alt.2 (.inr (.inr h)))
    rintro (head | head)
    · have body := (inLeft.leads ((first w).2 head)).append
        (.silent (added _ (.inr (.inr (.inl rfl)))) (.here _))
      rw [List.append_nil] at body
      exact .silent (added _ (.inl rfl)) body
    · have body := (inRight.leads ((second w).2 head)).append
        (.silent (added _ (.inr (.inr (.inr rfl)))) (.here _))
      rw [List.append_nil] at body
      exact .silent (added _ (.inr (.inl rfl))) body

/-- Where the edges lead that are added at the way out of a wrapped fragment. -/
def wrapExits (again : Bool) (f : Fragment) : List State :=
  (f.next + 1) :: if again then [f.start] else []

theorem within_wrap (skip again : Bool) :
    f.Within base (wrapExits again f) (.ofEdges (f.wrap skip again).edges) where
  edge_mem e mem := Nfa.mem_edges_ofEdges.2 (mem_edges_wrap.2 (.inl mem))
  edge_or_exit e mem _ below := by
    rcases mem_edges_wrap.1 (Nfa.mem_edges_ofEdges.1 mem) with
      own | rfl | ⟨_, rfl⟩ | ⟨rfl, rfl⟩ | rfl
    · exact .inl own
    · exact absurd below (Nat.lt_irrefl _)
    · exact absurd below (Nat.lt_irrefl _)
    · exact .inr ⟨rfl, rfl, by simp [wrapExits]⟩
    · exact .inr ⟨rfl, rfl, by simp [wrapExits]⟩

theorem branch_wrap_start {skip again : Bool} (body : f.Placed base) :
    ∀ e ∈ (Nfa.ofEdges (f.wrap skip again).edges).edges, e.source = f.next →
      e.label = none ∧ e.target ∈ f.start :: if skip then [f.next + 1] else [] := by
  intro e mem same
  have apart : ∀ {q : State}, q < f.next → q ≠ f.next := Nat.ne_of_lt
  rcases mem_edges_wrap.1 (Nfa.mem_edges_ofEdges.1 mem) with h | rfl | ⟨rfl, rfl⟩ | ⟨_, rfl⟩ | rfl
  · exact absurd same (apart (body.edge_lt e h).1)
  · exact ⟨rfl, by simp⟩
  · exact ⟨rfl, by simp⟩
  · exact absurd same (apart body.accept_lt)
  · exact absurd same (apart body.accept_lt)

theorem nil_or_matches_star {p : Pattern} {v : List Char} :
    v = [] ∨ (Pattern.star p).Matches v ↔ (Pattern.star p).Matches v := by
  constructor
  · rintro (rfl | words)
    · exact .starNone
    · exact words
  · exact .inr

/-- From the way out of the body, a word leads on if it is empty or if the body may be run again and
the word is made of words of the body. -/
theorem leads_on_wrap {skip again : Bool} {p : Pattern} (inner : f.Recognizes p.Matches)
    {v : List Char} (more : v = [] ∨ again = true ∧ (Pattern.star p).Matches v) :
    (Nfa.ofEdges (f.wrap skip again).edges).Path f.accept v (f.next + 1) := by
  have leave : ⟨f.accept, none, f.next + 1⟩ ∈ (Nfa.ofEdges (f.wrap skip again).edges).edges :=
    Nfa.mem_edges_ofEdges.2 (mem_edges_wrap.2 (.inr (.inr (.inr (.inr rfl)))))
  rcases more with rfl | ⟨loops, words⟩
  · exact .silent leave (.here _)
  · have back : ⟨f.accept, none, f.start⟩ ∈ (Nfa.ofEdges (f.wrap skip again).edges).edges :=
      Nfa.mem_edges_ofEdges.2 (mem_edges_wrap.2 (.inr (.inr (.inr (.inl ⟨loops, rfl⟩)))))
    generalize starred : Pattern.star p = q at words
    induction words with
    | starNone => exact .silent leave (.here _)
    | starMore head _ _ ih =>
      cases starred
      have inside : f.Within 0 _ _ := within_wrap skip again
      exact .silent back ((inside.leads ((inner _).2 head)).append (ih rfl))
    | _ => cases starred

theorem Recognizes.wrap {p : Pattern} (skip again : Bool) (body : f.Placed base)
    (inner : f.Recognizes p.Matches) :
    (f.wrap skip again).Recognizes fun w => skip = true ∧ w = [] ∨
      ∃ u v, w = u ++ v ∧ p.Matches u ∧ (v = [] ∨ again = true ∧ (Pattern.star p).Matches v) := by
  intro w
  have inside : f.Within base _ _ := within_wrap skip again
  constructor
  · intro path
    have done : ∀ v, (Nfa.ofEdges (f.wrap skip again).edges).Path (f.next + 1) v (f.next + 1) →
        v = [] := fun v rest => (rest.stuck (body.wrap skip again).stuck).1
    obtain ⟨r, branch, rest⟩ :=
      path.branch (Nat.ne_of_lt (Nat.lt_succ_self f.next)) (branch_wrap_start body)
    rcases List.mem_cons.1 branch with rfl | skipped
    · obtain ⟨u, v, rfl, leads, more⟩ := inside.leaves body (Nat.le_succ f.next)
        (fun v => v = [] ∨ again = true ∧ (Pattern.star p).Matches v)
        (fun r exit v path back => by
          rcases List.mem_cons.1 exit with rfl | loop
          · exact .inl (done v path)
          · cases again with
            | false => exact absurd loop List.not_mem_nil
            | true =>
              cases List.mem_singleton.1 loop
              obtain ⟨u, t, rfl, leads, more⟩ := back body.start_ge body.start_lt
              have tail := nil_or_matches_star.1 (more.imp_right And.right)
              exact .inr ⟨rfl, .starMore ((inner u).1 leads) tail⟩)
        rest body.start_ge body.start_lt
      exact .inr ⟨u, v, rfl, (inner u).1 leads, more⟩
    · cases skip with
      | false => exact absurd skipped List.not_mem_nil
      | true =>
        cases List.mem_singleton.1 skipped
        exact .inl ⟨rfl, done w rest⟩
  · rintro (⟨skips, rfl⟩ | ⟨u, v, rfl, head, more⟩)
    · have pass : ⟨f.next, none, f.next + 1⟩ ∈ (Nfa.ofEdges (f.wrap skip again).edges).edges :=
        Nfa.mem_edges_ofEdges.2 (mem_edges_wrap.2 (.inr (.inr (.inl ⟨skips, rfl⟩))))
      exact .silent pass (.here _)
    · have enter : ⟨f.next, none, f.start⟩ ∈ (Nfa.ofEdges (f.wrap skip again).edges).edges :=
        Nfa.mem_edges_ofEdges.2 (mem_edges_wrap.2 (.inr (.inl rfl)))
      exact .silent enter ((inside.leads ((inner u).2 head)).append (leads_on_wrap inner more))

end Parts

end Fragment

namespace Pattern

/-- The words that lead through the fragment of a pattern are those that the pattern stands for. -/
theorem recognizes_fragment (p : Pattern) (base : Nat) :
    (p.fragment base).Recognizes p.Matches := by
  induction p generalizing base with
  | char c =>
    intro w
    rw [matches_char_iff, fragment, Fragment.recognizes_letters base [c] w]
    simp
  | range first last =>
    intro w
    rw [matches_range_iff, fragment, Fragment.recognizes_letters base _ w]
    simp [Text.mem_between, and_assoc]
  | seq left right ihLeft ihRight =>
    intro w
    rw [matches_seq_iff]
    exact (ihLeft base).seq (left.placed_fragment base) (right.placed_fragment _) (ihRight _) w
  | alt left right ihLeft ihRight =>
    intro w
    rw [matches_alt_iff]
    exact (ihLeft base).alt (left.placed_fragment base) (right.placed_fragment _) (ihRight _) w
  | opt body ih =>
    intro w
    rw [matches_opt_iff, fragment, (ih base).wrap true false (body.placed_fragment base) w]
    simp
  | star body ih =>
    intro w
    rw [matches_star_iff, matches_plus_iff, fragment,
      (ih base).wrap true true (body.placed_fragment base) w]
    simp [Fragment.nil_or_matches_star]
  | plus body ih =>
    intro w
    rw [matches_plus_iff, fragment, (ih base).wrap false true (body.placed_fragment base) w]
    simp [Fragment.nil_or_matches_star]

end Pattern

end Lexing
