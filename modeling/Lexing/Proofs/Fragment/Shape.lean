import Lexing.Proofs.Fragment.Language

/- The shape of the fragment of a pattern whose ranges are in order. Each of its states is on a path from
the way in to the way out, no edge leads back to the way in, and the edges that leave a state are of
one kind: they read characters and lead to one state, or they are one or two silent edges. Each
operator keeps this, because it adds silent edges from its new way in and from the ways out of its
operands, and these had no edge before. -/

set_option autoImplicit false

namespace Lexing

namespace Nfa

def Joined (n : Nfa) (p q : State) : Prop := ∃ w, n.Path p w q

/-- The edges that leave a state read characters and lead to one state, or they are one or two silent
edges. -/
def Orderly (n : Nfa) (q : State) : Prop :=
  (∃ r, (∃ c, ⟨q, some c, r⟩ ∈ n.edges) ∧
    ∀ e ∈ n.edges, e.source = q → e.label ≠ none ∧ e.target = r) ∨
  ∃ r s, ∀ e, e ∈ n.edges ∧ e.source = q ↔ e = ⟨q, none, r⟩ ∨ e = ⟨q, none, s⟩

variable {m n : Nfa} {p q r s : State}

theorem Joined.here (n : Nfa) (q : State) : n.Joined q q := ⟨[], .here q⟩

theorem Joined.trans (first : n.Joined p q) (second : n.Joined q r) : n.Joined p r := by
  obtain ⟨u, lead⟩ := first
  obtain ⟨v, rest⟩ := second
  exact ⟨u ++ v, lead.append rest⟩

theorem joined_of_silent (edge : ⟨p, none, q⟩ ∈ n.edges) : n.Joined p q :=
  ⟨[], .silent edge (.here q)⟩

/-- Whether a state is orderly depends on the edges that leave it. -/
theorem Orderly.congr (same : ∀ e, e.source = q → (e ∈ m.edges ↔ e ∈ n.edges))
    (orderly : m.Orderly q) : n.Orderly q := by
  rcases orderly with ⟨r, ⟨c, edge⟩, only⟩ | ⟨r, s, leaving⟩
  · refine .inl ⟨r, ⟨c, (same _ rfl).1 edge⟩, fun e mem source => ?_⟩
    exact only e ((same e source).2 mem) source
  · refine .inr ⟨r, s, fun e => ?_⟩
    rw [← leaving]
    exact and_congr_left fun source => (same e source).symm

theorem orderly_of_branches {branches : List State} (two : ∀ t, t ∈ branches ↔ t = r ∨ t = s)
    (only : ∀ e ∈ n.edges, e.source = q → e.label = none ∧ e.target ∈ branches)
    (present : ∀ t ∈ branches, ⟨q, none, t⟩ ∈ n.edges) : n.Orderly q := by
  refine .inr ⟨r, s, fun e => ⟨fun ⟨mem, source⟩ => ?_, ?_⟩⟩
  · obtain ⟨p, label, t⟩ := e
    obtain ⟨rfl, branch⟩ := only _ mem source
    obtain rfl : p = q := source
    exact ((two t).1 branch).imp (congrArg _) (congrArg _)
  · rintro (rfl | rfl)
    · exact ⟨present r ((two r).2 (.inl rfl)), rfl⟩
    · exact ⟨present s ((two s).2 (.inr rfl)), rfl⟩

end Nfa

namespace Fragment

theorem below_or_last {q k : Nat} (upper : q < k + 2) : q < k ∨ q = k ∨ q = k + 1 := by
  omega

/-- What every operator keeps of a fragment whose states are numbered from `base` on. -/
structure Shaped (base : Nat) (f : Fragment) : Prop where
  through : ∀ q, base ≤ q → q < f.next →
    (Nfa.ofEdges f.edges).Joined f.start q ∧ (Nfa.ofEdges f.edges).Joined q f.accept
  unentered : ∀ e ∈ f.edges, e.target ≠ f.start
  orderly : ∀ q, base ≤ q → q < f.next → q ≠ f.accept → (Nfa.ofEdges f.edges).Orderly q

theorem shaped_letters (base : Nat) {cs : List Char} (nonempty : cs ≠ []) :
    (letters base cs).Shaped base := by
  obtain ⟨c, letter⟩ := List.exists_mem_of_ne_nil cs nonempty
  have edge : ⟨base, some c, base + 1⟩ ∈ (Nfa.ofEdges (letters base cs).edges).edges :=
    Nfa.mem_edges_ofEdges.2 (List.mem_map.2 ⟨c, letter, rfl⟩)
  have across : (Nfa.ofEdges (letters base cs).edges).Joined base (base + 1) :=
    ⟨[c], .letter edge (.here _)⟩
  have two {q : State} (lower : base ≤ q) (upper : q < base + 2) : q = base ∨ q = base + 1 :=
    (below_or_last upper).resolve_left (Nat.not_lt.2 lower)
  refine ⟨fun q lower upper => ?_, fun e mem => ?_, fun q lower upper apart => .inl ⟨base + 1, ?_⟩⟩
  · rcases two lower upper with rfl | rfl
    · exact ⟨.here _ _, across⟩
    · exact ⟨across, .here _ _⟩
  · obtain ⟨d, _, rfl⟩ := List.mem_map.1 mem
    exact Nat.succ_ne_self base
  · obtain rfl := (two lower upper).resolve_right apart
    refine ⟨⟨c, edge⟩, fun e mem _ => ?_⟩
    obtain ⟨d, _, rfl⟩ := List.mem_map.1 (Nfa.mem_edges_ofEdges.1 mem)
    exact ⟨Option.some_ne_none d, rfl⟩

section Parts

variable {base : Nat} {f g : Fragment} {exits : List State} {n : Nfa}

/-- A way to a part and a way on from it are ways to and on from all of its states. -/
theorem Within.through (within : f.Within base exits n) (shaped : f.Shaped base) {p r : State}
    (lead : n.Joined p f.start) (rest : n.Joined f.accept r) {q : State} (lower : base ≤ q)
    (upper : q < f.next) : n.Joined p q ∧ n.Joined q r := by
  obtain ⟨⟨u, reached⟩, ⟨v, exited⟩⟩ := shaped.through q lower upper
  exact ⟨lead.trans ⟨u, within.leads reached⟩, Nfa.Joined.trans ⟨v, within.leads exited⟩ rest⟩

/-- No edge is added to a state of a part other than its way out. -/
theorem Within.orderly (within : f.Within base exits n) (shaped : f.Shaped base) {q : State}
    (lower : base ≤ q) (upper : q < f.next) (apart : q ≠ f.accept) : n.Orderly q := by
  refine (shaped.orderly q lower upper apart).congr fun e source => ?_
  rw [Nfa.mem_edges_ofEdges]
  refine ⟨within.edge_mem e, fun mem => ?_⟩
  rcases within.edge_or_exit e mem (source ▸ lower) (source ▸ upper) with own | ⟨_, exit, _⟩
  · exact own
  · exact absurd (source.symm.trans exit) apart

/-- The way out of a part has no other edges than those that are added. -/
theorem Within.orderly_accept (within : f.Within base exits n) (placed : f.Placed base)
    {r s : State} (two : ∀ t, t ∈ exits ↔ t = r ∨ t = s)
    (present : ∀ t ∈ exits, ⟨f.accept, none, t⟩ ∈ n.edges) : n.Orderly f.accept := by
  refine Nfa.orderly_of_branches two (fun e mem source => ?_) present
  rcases within.edge_or_exit e mem (source ▸ placed.accept_ge) (source ▸ placed.accept_lt) with
    own | ⟨silent, _, exit⟩
  · exact absurd source (Nat.ne_of_lt (placed.source_lt_accept e own))
  · exact ⟨silent, exit⟩

/-- All states of a part are orderly if one or two edges are added at its way out. -/
theorem Within.orderly_all (within : f.Within base exits n) (placed : f.Placed base)
    (shaped : f.Shaped base) {r s : State} (two : ∀ t, t ∈ exits ↔ t = r ∨ t = s)
    (present : ∀ t ∈ exits, ⟨f.accept, none, t⟩ ∈ n.edges) {q : State} (lower : base ≤ q)
    (upper : q < f.next) : n.Orderly q := by
  by_cases out : q = f.accept
  · exact out ▸ within.orderly_accept placed two present
  · exact within.orderly shaped lower upper out

theorem Shaped.seq (left : f.Placed base) (right : g.Placed f.next) (first : f.Shaped base)
    (second : g.Shaped f.next) : (f.seq g).Shaped base := by
  have inLeft : f.Within base _ _ := within_seq_left right
  have inRight : g.Within f.next _ _ := within_seq_right left
  have link : ⟨f.accept, none, g.start⟩ ∈ (Nfa.ofEdges (f.seq g).edges).edges :=
    Nfa.mem_edges_ofEdges.2 (mem_edges_seq.2 (.inr (.inr rfl)))
  have toRight := (inLeft.through first (.here _ _) (Nfa.joined_of_silent link)
    left.start_ge left.start_lt).2
  have fromLeft := (inRight.through second (Nfa.joined_of_silent link) (.here _ _)
    right.accept_ge right.accept_lt).1
  refine ⟨fun q lower upper => ?_, fun e mem => ?_, fun q lower upper apart => ?_⟩
  · rcases Nat.lt_or_ge q f.next with below | above
    · exact inLeft.through first (.here _ _) fromLeft lower below
    · exact inRight.through second toRight (.here _ _) above upper
  · have later {t : State} (above : f.next ≤ t) : t ≠ f.start :=
      Nat.ne_of_gt (Nat.lt_of_lt_of_le left.start_lt above)
    rcases mem_edges_seq.1 mem with own | own | rfl
    · exact first.unentered e own
    · exact later (right.edge_ge e own).2
    · exact later right.start_ge
  · rcases Nat.lt_or_ge q f.next with below | above
    · refine inLeft.orderly_all left first (r := g.start) (s := g.start) (by simp) ?_ lower below
      exact fun t exit => List.mem_singleton.1 exit ▸ link
    · exact inRight.orderly second above upper apart

theorem Shaped.alt (left : f.Placed base) (right : g.Placed f.next) (first : f.Shaped base)
    (second : g.Shaped f.next) : (f.alt g).Shaped base := by
  have inLeft : f.Within base _ _ := within_alt_left right
  have inRight : g.Within f.next _ _ := within_alt_right left
  have added : ∀ e, (e = ⟨g.next, none, f.start⟩ ∨ e = ⟨g.next, none, g.start⟩ ∨
      e = ⟨f.accept, none, g.next + 1⟩ ∨ e = ⟨g.accept, none, g.next + 1⟩) →
      e ∈ (Nfa.ofEdges (f.alt g).edges).edges :=
    fun e h => Nfa.mem_edges_ofEdges.2 (mem_edges_alt.2 (.inr (.inr h)))
  have toLeft := Nfa.joined_of_silent (added _ (.inl rfl))
  have toRight := Nfa.joined_of_silent (added _ (.inr (.inl rfl)))
  have fromLeft := Nfa.joined_of_silent (added _ (.inr (.inr (.inl rfl))))
  have fromRight := Nfa.joined_of_silent (added _ (.inr (.inr (.inr rfl))))
  have across := toLeft.trans
    (inLeft.through first (.here _ _) fromLeft left.start_ge left.start_lt).2
  refine ⟨fun q lower upper => ?_, fun e mem => ?_, fun q lower upper apart => ?_⟩
  · rcases below_or_last upper with below | rfl | rfl
    · rcases Nat.lt_or_ge q f.next with within | above
      · exact inLeft.through first toLeft fromLeft lower within
      · exact inRight.through second toRight fromRight above below
    · exact ⟨.here _ _, across⟩
    · exact ⟨across, .here _ _⟩
  · have inside {t : State} (below : t < g.next) : t ≠ g.next := Nat.ne_of_lt below
    have early {t : State} (below : t < f.next) : t ≠ g.next :=
      inside (Nat.lt_of_lt_of_le below right.base_le)
    rcases mem_edges_alt.1 mem with own | own | rfl | rfl | rfl | rfl
    · exact early (left.edge_lt e own).2
    · exact inside (right.edge_lt e own).2
    · exact early left.start_lt
    · exact inside right.start_lt
    · exact Nat.succ_ne_self g.next
    · exact Nat.succ_ne_self g.next
  · have present (out : State) (edge : ⟨out, none, g.next + 1⟩ ∈ (Nfa.ofEdges (f.alt g).edges).edges) :
        ∀ t ∈ [g.next + 1], ⟨out, none, t⟩ ∈ (Nfa.ofEdges (f.alt g).edges).edges :=
      fun t exit => List.mem_singleton.1 exit ▸ edge
    rcases below_or_last upper with below | rfl | rfl
    · rcases Nat.lt_or_ge q f.next with within | above
      · exact inLeft.orderly_all left first (r := g.next + 1) (s := g.next + 1) (by simp)
          (present _ (added _ (.inr (.inr (.inl rfl))))) lower within
      · exact inRight.orderly_all right second (r := g.next + 1) (s := g.next + 1) (by simp)
          (present _ (added _ (.inr (.inr (.inr rfl))))) above below
    · refine Nfa.orderly_of_branches (r := f.start) (s := g.start) (by simp)
        (branch_alt_start left right) fun t branch => ?_
      rw [List.mem_cons, List.mem_singleton] at branch
      rcases branch with rfl | rfl
      · exact added _ (.inl rfl)
      · exact added _ (.inr (.inl rfl))
    · exact absurd rfl apart

theorem Shaped.wrap (skip again : Bool) (body : f.Placed base) (inner : f.Shaped base) :
    (f.wrap skip again).Shaped base := by
  have within : f.Within base _ _ := within_wrap skip again
  have added : ∀ e, (e = ⟨f.next, none, f.start⟩ ∨ (skip = true ∧ e = ⟨f.next, none, f.next + 1⟩) ∨
      (again = true ∧ e = ⟨f.accept, none, f.start⟩) ∨ e = ⟨f.accept, none, f.next + 1⟩) →
      e ∈ (Nfa.ofEdges (f.wrap skip again).edges).edges :=
    fun e h => Nfa.mem_edges_ofEdges.2 (mem_edges_wrap.2 (.inr h))
  have enter := Nfa.joined_of_silent (added _ (.inl rfl))
  have exit := Nfa.joined_of_silent (added _ (.inr (.inr (.inr rfl))))
  have across := enter.trans
    (within.through inner (.here _ _) exit body.start_ge body.start_lt).2
  refine ⟨fun q lower upper => ?_, fun e mem => ?_, fun q lower upper apart => ?_⟩
  · rcases below_or_last upper with below | rfl | rfl
    · exact within.through inner enter exit lower below
    · exact ⟨.here _ _, across⟩
    · exact ⟨across, .here _ _⟩
  · rcases mem_edges_wrap.1 mem with own | rfl | ⟨_, rfl⟩ | ⟨_, rfl⟩ | rfl
    · exact Nat.ne_of_lt (body.edge_lt e own).2
    · exact Nat.ne_of_lt body.start_lt
    · exact Nat.succ_ne_self f.next
    · exact Nat.ne_of_lt body.start_lt
    · exact Nat.succ_ne_self f.next
  · rcases below_or_last upper with below | rfl | rfl
    · refine within.orderly_all body inner (r := f.next + 1)
        (s := if again then f.start else f.next + 1) (fun t => ?_) (fun t mem => ?_) lower below
      · cases again <;> simp [wrapExits]
      · rcases List.mem_cons.1 mem with rfl | back
        · exact added _ (.inr (.inr (.inr rfl)))
        · cases again with
          | false => cases back
          | true => exact List.mem_singleton.1 back ▸ added _ (.inr (.inr (.inl ⟨rfl, rfl⟩)))
    · refine Nfa.orderly_of_branches (r := f.start) (s := if skip then f.next + 1 else f.start)
        (fun t => ?_) (branch_wrap_start body) fun t mem => ?_
      · cases skip <;> simp
      · rcases List.mem_cons.1 mem with rfl | pass
        · exact added _ (.inl rfl)
        · cases skip with
          | false => cases pass
          | true => exact List.mem_singleton.1 pass ▸ added _ (.inr (.inl ⟨rfl, rfl⟩))
    · exact absurd rfl apart

end Parts

end Fragment

namespace Pattern

def Ordered : Pattern → Prop
  | char _ => True
  | range first last => first ≤ last
  | seq left right => left.Ordered ∧ right.Ordered
  | alt left right => left.Ordered ∧ right.Ordered
  | opt body => body.Ordered
  | star body => body.Ordered
  | plus body => body.Ordered

theorem shaped_fragment {p : Pattern} (ordered : p.Ordered) (base : Nat) :
    (p.fragment base).Shaped base := by
  induction p generalizing base with
  | char c => exact Fragment.shaped_letters base (List.cons_ne_nil c [])
  | range first last =>
    refine Fragment.shaped_letters base (List.ne_nil_of_mem (Text.mem_between.2 ⟨?_, ordered⟩))
    exact Char.le_refl first
  | seq left right ihLeft ihRight =>
    exact (ihLeft ordered.1 base).seq (left.placed_fragment base) (right.placed_fragment _)
      (ihRight ordered.2 _)
  | alt left right ihLeft ihRight =>
    exact (ihLeft ordered.1 base).alt (left.placed_fragment base) (right.placed_fragment _)
      (ihRight ordered.2 _)
  | opt body ih => exact (ih ordered base).wrap true false (body.placed_fragment base)
  | star body ih => exact (ih ordered base).wrap true true (body.placed_fragment base)
  | plus body ih => exact (ih ordered base).wrap false true (body.placed_fragment base)

end Pattern

end Lexing
