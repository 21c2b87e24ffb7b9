import Mathlib.Logic.Relation
import ForgottenServer.Maps.PathSearch

/-! # The graph of the nodes

Whatever the map and the squares that are taken, also across its edge, the parents of
the nodes lead back to the start at each turn of the loop, and there are finitely
many turns. -/
namespace ForgottenServer.Maps
open AStarNodes PathQuery Relation

variable {q : PathQuery} {ns : List AStarNode} {n c : AStarNode} {k i : ℕ} {s s' : Progress}

/-- The parent of the node at one place lies at another. -/
def ParentAt (ns : List AStarNode) (i j : ℕ) : Prop := ∃ c, ns[i]? = some c ∧ c.parent = some j

/-- The cost of a square by way of a node. -/
def PathQuery.costVia (q : PathQuery) (n : AStarNode) (pos : Position) : ℕ :=
  n.f + getMapWalkCost n pos + q.getTileWalkCost pos

/-- A node has a parent in the pool, and costs at least as much more as the step from it. -/
structure Rooted (q : PathQuery) (ns : List AStarNode) : Prop where
  start : ∃ b, ns[0]? = some { parent := none, f := 0, x := q.startPos.x, y := q.startPos.y, isOpen := b }
  child : ∀ i c, ns[i]? = some c → i ≠ 0 → ∃ j p, c.parent = some j ∧ ns[j]? = some p ∧ q.costVia p (q.square c) ≤ c.f

/-! ## Trees -/

section Rooted

theorem rooted_startPool (q : PathQuery) : Rooted q q.startPool.nodes where
  start := ⟨true, rfl⟩
  child i c hc hi := by
    have hlt := (List.getElem?_eq_some_iff.mp hc).1
    rw [startPool, List.length_singleton] at hlt
    omega

theorem costVia_lt (q : PathQuery) (n : AStarNode) (pos : Position) : n.f < q.costVia n pos := by
  have hstep := normal_le_getMapWalkCost n pos
  unfold PathQuery.costVia
  omega

theorem Rooted.lt (h : Rooted q ns) {j : ℕ} {p : AStarNode} (hc : ns[i]? = some c)
    (hparent : c.parent = some j) (hp : ns[j]? = some p) : p.f < c.f := by
  have hi : i ≠ 0 := by
    rintro rfl
    obtain ⟨b, hb⟩ := h.start
    rw [hb] at hc
    obtain rfl := Option.some.inj hc
    cases hparent
  obtain ⟨j', p', hparent', hp', hcost⟩ := h.child i c hc hi
  rw [hparent] at hparent'
  obtain rfl := Option.some.inj hparent'
  rw [hp] at hp'
  obtain rfl := Option.some.inj hp'
  exact lt_of_lt_of_le (costVia_lt q p _) hcost

theorem Rooted.reaches_start (h : Rooted q ns) (hc : ns[i]? = some c) : ReflTransGen (ParentAt ns) i 0 := by
  induction hf : c.f using Nat.strong_induction_on generalizing i c with
  | _ f ih =>
    by_cases hi : i = 0
    · rw [hi]
    · obtain ⟨j, p, hparent, hp, -⟩ := h.child i c hc hi
      have hlt := h.lt hc hparent hp
      exact .head ⟨c, hc, hparent⟩ (ih p.f (by omega) hp rfl)

theorem Rooted.lt_of_transGen (h : Rooted q ns) {j : ℕ} (hij : TransGen (ParentAt ns) i j) :
    ∀ c p, ns[i]? = some c → ns[j]? = some p → p.f < c.f := by
  induction hij with
  | single hparent =>
    rintro c p hc hp
    obtain ⟨c', hc', hparent⟩ := hparent
    rw [hc] at hc'
    obtain rfl := Option.some.inj hc'
    exact h.lt hc hparent hp
  | tail _ hparent ih =>
    rintro c p hc hp
    obtain ⟨m, hm, hparent⟩ := hparent
    exact (h.lt hm hparent hp).trans (ih c m hc hm)

theorem Rooted.acyclic (h : Rooted q ns) (i : ℕ) : ¬ TransGen (ParentAt ns) i i := by
  intro hloop
  obtain ⟨j, ⟨c, hc, -⟩, -⟩ := TransGen.head'_iff.mp hloop
  exact lt_irrefl _ (h.lt_of_transGen hloop c c hc hc)

theorem Rooted.readBack_ends {fuel : ℕ} (h : Rooted q ns) (prev : Position) (hc : ns[i]? = some c)
    (hfuel : c.f < fuel) : ∃ dirList, q.readBack ns fuel prev c.parent = some dirList := by
  induction fuel generalizing i c prev with
  | zero => omega
  | succ fuel ih =>
    by_cases hi : i = 0
    · obtain ⟨b, hb⟩ := h.start
      rw [hi, hb] at hc
      obtain rfl := Option.some.inj hc
      exact ⟨[], rfl⟩
    · obtain ⟨j, p, hparent, hp, -⟩ := h.child i c hc hi
      have hlt := h.lt hc hparent hp
      obtain ⟨rest, hrest⟩ := ih (q.square p) hp (by omega)
      exact ⟨_, by rw [hparent, PathQuery.readBack, hp, Option.bind_some, hrest, Option.map_some]⟩

end Rooted

/-! ## A turn of the loop -/

section Turn

/-- The nodes after some of a visit: the ones that it has set are children of the one that is
expanded, at its cost and that of the step. -/
structure Expanding (q : PathQuery) (k : ℕ) (n : AStarNode) (before ns : List AStarNode) :
    Prop where
  rooted : Rooted q ns
  parent : ns[k]? = some n
  sets : ∀ (i : ℕ) (c : AStarNode), ns[i]? = some c → before[i]? = some c ∨
    c.parent = some k ∧ c.f = q.costVia n (q.square c)

theorem Expanding.reparent {before : List AStarNode} {d : ℤ × ℤ} (h : Expanding q k n before ns) (hc : ns[i]? = some c)
    (hsquare : q.square c = neighbor (q.square n) d) (hf : q.newf n d < c.f) :
    Expanding q k n before (ns.modify i (·.reparented k (q.newf n d))) := by
  have hcost : q.newf n d = q.costVia n (q.square c) := by rw [hsquare]; rfl
  have hi : i ≠ 0 := by
    rintro rfl
    obtain ⟨b, hb⟩ := h.rooted.start
    rw [hb] at hc
    obtain rfl := Option.some.inj hc
    cases hf
  have hki : k ≠ i := by
    rintro rfl
    have hn := h.parent
    rw [hc] at hn
    obtain rfl := Option.some.inj hn
    have hlt := costVia_lt q c (q.square c)
    omega
  have hparent : (ns.modify i (·.reparented k (q.newf n d)))[k]? = some n := by
    rw [List.getElem?_modify_ne _ _ (Ne.symm hki), h.parent]
  refine ⟨⟨?_, fun m c' hc' hm => ?_⟩, hparent, fun m c' hc' => ?_⟩
  · obtain ⟨b, hb⟩ := h.rooted.start
    exact ⟨b, by rw [List.getElem?_modify_ne _ _ hi, hb]⟩
  · rcases getElem?_modify_cases hc' with ⟨rfl, c'', hc'', rfl⟩ | ⟨hne, hc'⟩
    · rw [hc] at hc''
      obtain rfl := Option.some.inj hc''
      exact ⟨k, n, rfl, hparent, hcost.ge⟩
    · obtain ⟨j, p, hj, hp, hle⟩ := h.rooted.child m c' hc' hm
      by_cases hji : j = i
      · -- the parent is the one that has become cheaper
        subst hji
        rw [hc] at hp
        obtain rfl := Option.some.inj hp
        refine ⟨j, c.reparented k (q.newf n d), hj, by rw [List.getElem?_modify_eq, hc]; rfl, ?_⟩
        have hsame : getMapWalkCost (c.reparented k (q.newf n d)) (q.square c') = getMapWalkCost c (q.square c') := rfl
        have hless : (c.reparented k (q.newf n d)).f = q.newf n d := rfl
        unfold PathQuery.costVia at hle ⊢
        omega
      · exact ⟨j, p, hj, by rw [List.getElem?_modify_ne _ _ (Ne.symm hji), hp], hle⟩
  · rcases getElem?_modify_cases hc' with ⟨rfl, c'', hc'', rfl⟩ | ⟨-, hc'⟩
    · rw [hc] at hc''
      obtain rfl := Option.some.inj hc''
      exact .inr ⟨rfl, hcost⟩
    · exact h.sets m c' hc'

theorem Expanding.create {before : List AStarNode} (h : Expanding q k n before ns) (hparent : c.parent = some k)
    (hf : c.f = q.costVia n (q.square c)) : Expanding q k n before (ns ++ [c]) := by
  have hold : ∀ {j p}, ns[j]? = some p → (ns ++ [c])[j]? = some p := fun hp => by
    rw [List.getElem?_append_left (List.getElem?_eq_some_iff.mp hp).1, hp]
  refine ⟨⟨?_, fun m c' hc' hm => ?_⟩, hold h.parent, fun m c' hc' => ?_⟩
  · obtain ⟨b, hb⟩ := h.rooted.start
    exact ⟨b, hold hb⟩
  · rcases getElem?_snoc_cases hc' with hc' | ⟨-, rfl⟩
    · obtain ⟨j, p, hj, hp, hle⟩ := h.rooted.child m c' hc' hm
      exact ⟨j, p, hj, hold hp, hle⟩
    · exact ⟨k, n, hparent, hold h.parent, hf.ge⟩
  · rcases getElem?_snoc_cases hc' with hc' | ⟨-, rfl⟩
    · exact h.sets m c' hc'
    · exact .inr ⟨hparent, hf⟩

theorem expanding_visit {found : Bool} {ds : List (ℤ × ℤ)} {pool pool' : AStarNodes} (h : Rooted q pool.nodes)
    (hn : pool.nodes[k]? = some n) (hvisit : q.visit found k n pool ds = some pool') :
    Expanding q k n pool.nodes pool'.nodes := by
  refine visit_rule (P := Expanding q k n pool.nodes) ?_ ?_ ⟨h, hn, fun _ _ hc => .inl hc⟩ hvisit
  · intro ns i c d hP _ hc hsquare hf
    exact hP.reparent hc hsquare hf
  · intro ns d hP _ _ _ _
    exact hP.create rfl rfl

theorem Rooted.close (h : Rooted q ns) (k : ℕ) : Rooted q (closeAt ns k) where
  start := by
    obtain ⟨b, hb⟩ := h.start
    obtain ⟨b', hb', -⟩ := getElem?_closeAt hb k
    exact ⟨b', hb'⟩
  child m c hc hm := by
    obtain ⟨c', b, hc', rfl, -⟩ := getElem?_closeAt_cases hc
    obtain ⟨j, p, hparent, hp, hcost⟩ := h.child m c' hc' hm
    obtain ⟨b', hb', -⟩ := getElem?_closeAt hp k
    exact ⟨j, _, hparent, hb', hcost⟩

end Turn

/-! ## The loop -/

/-- The parent and the cost of a node stay as they are in a turn, or its parent is the node that is
expanded and it costs as much as that one then and the step from it. -/
structure Sets (q : PathQuery) (k : ℕ) (n : AStarNode) (s s' : Progress) : Prop where
  parent : ∃ p, s'.pool.nodes[k]? = some p ∧ p.f = n.f
  node : ∀ (i : ℕ) (c : AStarNode), s'.pool.nodes[i]? = some c →
    (∃ c', s.pool.nodes[i]? = some c' ∧ c'.parent = c.parent ∧ c'.f = c.f) ∨
      c.parent = some k ∧ c.f = q.costVia n (q.square c)

section Loop

/-- What a turn does to the nodes: it expands one that is open, and closes it. -/
theorem turn_cases (h : q.turn s = some (k, n, s')) : s.pool.nodes[k]? = some n ∧
    n.isOpen = true ∧ ∃ found ds pool, q.visit found k n s.pool ds = some pool ∧ s'.pool = pool.closeNode k := by
  unfold PathQuery.turn at h
  split at h
  · cases h
  · split at h
    · cases h
    · rename_i hbest
      dsimp only at h
      split at h
      · cases h
      · obtain ⟨pool, hvisit, heq⟩ := Option.map_eq_some_iff.mp h
        obtain ⟨rfl, rfl, rfl⟩ : _ = k ∧ _ = n ∧ _ = s' := by simpa using heq
        obtain ⟨k', hk', hmap⟩ := Option.bind_eq_some_iff.mp hbest
        obtain ⟨n', hn', hpair⟩ := Option.map_eq_some_iff.mp hmap
        obtain ⟨rfl, rfl⟩ := Prod.mk.inj hpair
        obtain ⟨n'', hn'', hopen, -⟩ := getBestNode_spec hk'
        rw [hn'] at hn''
        obtain rfl := Option.some.inj hn''
        rw [mark_pool] at hvisit
        exact ⟨hn', hopen, _, _, pool, hvisit, rfl⟩

theorem Turns.rooted (h : Turns q s) : Rooted q s.pool.nodes := by
  induction h with
  | start => exact rooted_startPool q
  | turn _ hturn ih =>
    obtain ⟨hn, -, found, ds, pool, hvisit, hpool⟩ := turn_cases hturn
    rw [hpool]
    exact (expanding_visit ih hn hvisit).rooted.close _

theorem sets_turn (h : Turns q s) (hturn : q.turn s = some (k, n, s')) : Sets q k n s s' := by
  obtain ⟨hn, -, found, ds, pool, hvisit, hpool⟩ := turn_cases hturn
  have hexpanded := expanding_visit h.rooted hn hvisit
  constructor
  · obtain ⟨b, hb, -⟩ := getElem?_closeAt hexpanded.parent k
    rw [hpool]
    exact ⟨_, hb, rfl⟩
  · intro i c hc
    rw [hpool] at hc
    obtain ⟨c', b, hc', rfl, -⟩ := getElem?_closeAt_cases hc
    rcases hexpanded.sets i c' hc' with hsame | hset
    · exact .inl ⟨c', hsame, rfl, rfl⟩
    · exact .inr hset

/-- The nodes of a search are a tree below the start at the beginning of each turn, in which each
costs at least as much more than its parent as the step; a turn sets a node below the one it
expands, at the cost of that one and of the step; and the turns end, as does reading back. -/
theorem node_graph_is_a_tree (q : PathQuery) : (∀ s, Turns q s → Rooted q s.pool.nodes ∧
      (∀ i, i < s.pool.nodes.length → ReflTransGen (ParentAt s.pool.nodes) i 0) ∧
      (∀ i, ¬ TransGen (ParentAt s.pool.nodes) i i) ∧
      (∀ (i : ℕ) (c : AStarNode), s.pool.nodes[i]? = some c →
        ∃ fuel dirList, q.readBack s.pool.nodes fuel (q.square c) c.parent = some dirList) ∧
      ∀ k n s', q.turn s = some (k, n, s') → Sets q k n s s') ∧
    ∃ fuel r, q.search fuel { pool := q.startPool } = some r := by
  refine ⟨fun s hs => ?_, search_ends q _⟩
  have hrooted := hs.rooted
  refine ⟨hrooted, fun i hi => ?_, hrooted.acyclic, fun i c hc => ?_, fun k n s' => sets_turn hs⟩
  · exact hrooted.reaches_start (List.getElem?_eq_getElem hi)
  · exact ⟨c.f + 1, hrooted.readBack_ends (q.square c) hc (Nat.lt_succ_self c.f)⟩

end Loop
end ForgottenServer.Maps
