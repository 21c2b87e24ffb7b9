import Mathlib.Algebra.Order.Group.Abs
import ForgottenServer.Maps.PathTree

/-! # Corners

The start is left in all eight directions, also where steps must be straight. Such a corner
is no harm if a square beside it costs nothing extra: that one is expanded first, and
then the corner is cheaper by way of it. So no corner is ever expanded. -/
namespace ForgottenServer.Maps
open AStarNodes PathQuery

variable {q : PathQuery} {ns : List AStarNode} {n c s : AStarNode} {k i : ℕ}

/-- The square is taken and costs nothing extra. -/
def PathQuery.free (q : PathQuery) (pos : Position) : Bool := q.takes pos && q.getTileWalkCost pos = 0

/-- Where the start can be left diagonally, one of the two squares in between is free. -/
def CornersFree (q : PathQuery) : Prop :=
  ∀ d ∈ allNeighbors, d.1 ≠ 0 → d.2 ≠ 0 → q.takes (neighbor q.startPos d) = true →
    q.free (neighbor q.startPos (d.1, 0)) = true ∨ q.free (neighbor q.startPos (0, d.2)) = true

/-! ## Costs -/

section Costs

theorem getMapWalkCost_of_steps {r : Position} {d : ℤ × ℤ} (hd : d ∈ allNeighbors) (h : Steps (q.square n) d r) :
    getMapWalkCost n r = if d.1 = 0 ∨ d.2 = 0 then 10 else 25 := by
  have habs : ∀ d ∈ allNeighbors, |d.1| = |d.2| ↔ ¬ (d.1 = 0 ∨ d.2 = 0) := by decide
  have hx : (n.x.toNat : ℤ) - r.x.toNat = -d.1 := by
    have hstep : (r.x.toNat : ℤ) = n.x.toNat + d.1 := h.1
    omega
  have hy : (n.y.toNat : ℤ) - r.y.toNat = -d.2 := by
    have hstep : (r.y.toNat : ℤ) = n.y.toNat + d.2 := h.2.1
    omega
  rw [getMapWalkCost, hx, hy, abs_neg, abs_neg]
  by_cases hstraight : d.1 = 0 ∨ d.2 = 0
  · rw [if_neg fun heq => (habs d hd).mp heq hstraight, if_pos hstraight]
    rfl
  · rw [if_pos ((habs d hd).mpr hstraight), if_neg hstraight]
    rfl

theorem Tree.normal_le (h : Tree q ns) (hc : ns[i]? = some c) (hi : i ≠ 0) : 10 ≤ c.f := by
  obtain ⟨j, p, -, -, hchild⟩ := h.child i c hc hi
  have hcost := hchild.cost
  have hstep := normal_le_getMapWalkCost p (q.square c)
  omega

theorem Tree.child_of_start (h : Tree q ns) (hc : ns[i]? = some c) (hf : c.f ≤ 10) (hi : i ≠ 0) :
    c.parent = some 0 ∧ c.f = 10 ∧ ∃ d ∈ allNeighbors, Steps q.startPos d (q.square c) := by
  obtain ⟨j, p, hparent, hp, hchild⟩ := h.child i c hc hi
  have hcost := hchild.cost
  have hstep := normal_le_getMapWalkCost p (q.square c)
  obtain ⟨rfl, hsquare, -⟩ := h.eq_start hp (.inr (by omega))
  obtain ⟨d, hd, hsteps, -⟩ := hchild.step
  exact ⟨hparent, by omega, d, hd, hsquare ▸ hsteps⟩

theorem Tree.corner (h : Tree q ns) (hc : ns[i]? = some c) (hcorner : IsCorner q c) :
    ∃ d ∈ allNeighbors, Steps q.startPos d (q.square c) ∧ d.1 ≠ 0 ∧ d.2 ≠ 0 ∧ q.takes (q.square c) = true ∧
      25 + q.getTileWalkCost (q.square c) ≤ c.f := by
  obtain ⟨hparent, hx, hy⟩ := hcorner
  have hi : i ≠ 0 := by
    rintro rfl
    obtain ⟨b, hb⟩ := h.start
    rw [hb] at hc
    obtain rfl := Option.some.inj hc
    cases hparent
  obtain ⟨j, p, hparent', hp, hchild⟩ := h.child i c hc hi
  rw [hparent] at hparent'
  obtain rfl := Option.some.inj hparent'
  obtain ⟨b, hb⟩ := h.start
  rw [hb] at hp
  obtain rfl := Option.some.inj hp
  obtain ⟨d, hd, hsteps, -⟩ := hchild.step
  have hd1 : d.1 ≠ 0 := by
    intro hzero
    refine hx (UInt16.toNat_inj.mp ?_)
    have hstep : (c.x.toNat : ℤ) = q.startPos.x.toNat + d.1 := hsteps.1
    omega
  have hd2 : d.2 ≠ 0 := by
    intro hzero
    refine hy (UInt16.toNat_inj.mp ?_)
    have hstep : (c.y.toNat : ℤ) = q.startPos.y.toNat + d.2 := hsteps.2.1
    omega
  have hcost := hchild.cost
  rw [getMapWalkCost_of_steps hd hsteps, if_neg (by tauto)] at hcost
  exact ⟨d, hd, hsteps, hd1, hd2, hchild.takes, by simpa using hcost⟩

end Costs

/-! ## What a visit settles -/

section Settles

theorem visit_cheaper {found : Bool} {ds : List (ℤ × ℤ)} {pool pool' : AStarNodes}
    (h : q.visit found k n pool ds = some pool') :
    ∀ c ∈ pool.nodes, ∃ c' ∈ pool'.nodes, q.square c' = q.square c ∧ c'.f ≤ c.f := by
  refine visit_rule (P := fun ns => ∀ c ∈ pool.nodes, ∃ c' ∈ ns, q.square c' = q.square c ∧ c'.f ≤ c.f) ?_ ?_
    (fun c hc => ⟨c, hc, rfl, le_refl _⟩) h
  · intro ns i b d hns _ hb hsquare hf c hc
    obtain ⟨c', hc', hsame, hle⟩ := hns c hc
    obtain ⟨j, hj⟩ := List.mem_iff_getElem?.mp hc'
    by_cases hij : j = i
    · subst hij
      rw [hb] at hj
      obtain rfl := Option.some.inj hj
      refine ⟨b.reparented k (q.newf n d), List.mem_of_getElem? (i := j) ?_, hsame, le_trans (le_of_lt hf) hle⟩
      rw [List.getElem?_modify_eq, hb]
      rfl
    · exact ⟨c', List.mem_of_getElem? (i := j) (by rw [List.getElem?_modify_ne _ _ (Ne.symm hij), hj]), hsame, hle⟩
  · intro ns d hns _ _ _ _ c hc
    obtain ⟨c', hc', hsame, hle⟩ := hns c hc
    exact ⟨c', List.mem_append_left _ hc', hsame, hle⟩

/-- Where the pool has room, a neighbour that is taken is a node afterwards, which costs at most
the way by the node that has been expanded. -/
theorem visit_settles {found : Bool} {ds : List (ℤ × ℤ)} {pool pool' : AStarNodes}
    (hroom : pool.nodes.length + ds.length ≤ maxNodes) (h : q.visit found k n pool ds = some pool') :
    ∀ d ∈ ds, q.takes (neighbor (q.square n) d) = true →
      ∃ c ∈ pool'.nodes, q.square c = neighbor (q.square n) d ∧ c.f ≤ q.newf n d := by
  induction ds generalizing pool with
  | nil => exact fun d hd => by cases hd
  | cons d ds ih =>
    rw [List.length_cons] at hroom
    -- the pool after the first neighbour, and what the visit of the others leaves of it
    have hafter : ∀ mid : AStarNodes, q.visit found k n mid ds = some pool' →
        mid.nodes.length ≤ pool.nodes.length + 1 →
        (q.takes (neighbor (q.square n) d) = true →
          ∃ c ∈ mid.nodes, q.square c = neighbor (q.square n) d ∧ c.f ≤ q.newf n d) →
        ∀ d' ∈ d :: ds, q.takes (neighbor (q.square n) d') = true →
          ∃ c ∈ pool'.nodes, q.square c = neighbor (q.square n) d' ∧ c.f ≤ q.newf n d' := by
      intro mid hmid hlength hfirst d' hd' htakes
      rcases List.mem_cons.mp hd' with rfl | hd'
      · obtain ⟨c, hc, hsquare, hle⟩ := hfirst htakes
        obtain ⟨c', hc', hsame, hle'⟩ := visit_cheaper hmid c hc
        exact ⟨c', hc', hsame.trans hsquare, le_trans hle' hle⟩
      · exact ih (by omega) hmid d' hd' htakes
    unfold PathQuery.visit at h
    dsimp only at h
    split at h
    · rename_i houtside
      refine hafter pool h (by omega) fun htakes => ?_
      rw [PathQuery.takes, houtside] at htakes
      cases htakes
    · split at h
      · rename_i i hi
        obtain ⟨c, hc, hsquare⟩ := getNodeByPosition_spec (q := q) (neighbor (q.square n) d) rfl hi
        split at h
        · rename_i hcheaper
          refine hafter pool h (by omega) fun _ => ⟨c, List.mem_of_getElem? hc, hsquare, ?_⟩
          simpa [hc, newf] using hcheaper
        · refine hafter _ h ?_ fun _ => ⟨c.reparented k (q.newf n d),
            List.mem_of_getElem? (i := i) ?_, hsquare, le_refl _⟩
          · show (pool.nodes.modify i _).length ≤ _
            rw [List.length_modify]
            omega
          · show (pool.nodes.modify i _)[i]? = _
            rw [List.getElem?_modify_eq, hc]
            rfl
      · split at h
        · split at h
          · rename_i mid hcreated
            unfold createOpenNode at hcreated
            split at hcreated
            · cases hcreated
            · obtain rfl := Option.some.inj hcreated
              refine hafter _ h ?_ fun _ =>
                ⟨_, List.mem_append_right _ (List.mem_singleton_self _), rfl, le_refl _⟩
              dsimp only
              rw [List.length_append, List.length_singleton]
          · rename_i hfull
            unfold createOpenNode at hfull
            rw [if_neg (by omega)] at hfull
            cases hfull
        · rename_i hwalk
          refine hafter pool h (by omega) fun htakes => ?_
          rw [PathQuery.takes, Bool.and_eq_true] at htakes
          exact absurd htakes.2 hwalk

end Settles

/-! ## Corners -/

/-- The node lies right between the start and a corner. -/
def IsSide (q : PathQuery) (s c : AStarNode) : Prop :=
  s.x = c.x ∧ s.y = q.startPos.y ∨ s.x = q.startPos.x ∧ s.y = c.y

/-- The node is open, and is not the one that is being expanded. -/
def Waiting (k : Option ℕ) (i : ℕ) (s : AStarNode) : Prop := s.isOpen = true ∧ some i ≠ k

/-- While the node at `k`, if any, is expanded: no corner is a parent, and for each corner there is
a node beside it which is expanded before it, and by way of which it is cheaper. -/
structure Corners (q : PathQuery) (k : Option ℕ) (ns : List AStarNode) : Prop where
  started : ∀ i c, ns[i]? = some c → Waiting k i c → i ≠ 0
  parents : ∀ c ∈ ns, ∀ j p, c.parent = some j → ns[j]? = some p → ¬ IsCorner q p
  cheap : (∃ i s, ns[i]? = some s ∧ Waiting k i s ∧ s.f ≤ 10) →
    ∀ c ∈ ns, ∀ j p, c.parent = some j → ns[j]? = some p → p.f ≤ 10
  side : ∀ c ∈ ns, IsCorner q c → ∃ i s, ns[i]? = some s ∧ IsSide q s c ∧ s.f = 10 ∧
    (Waiting k i s ∨ c.f ≤ 20 + q.getTileWalkCost (q.square c))

section Corners

theorem Corners.not_corner (h : Corners q none ns) (htree : Tree q ns) (hn : ns[k]? = some n)
    (hleast : ∀ c ∈ ns, c.isOpen = true → n.f ≤ c.f) : ¬ IsCorner q n := by
  intro hcorner
  obtain ⟨d, -, -, -, -, -, hcost⟩ := htree.corner hn hcorner
  obtain ⟨i, s, hs, -, hf, hwaiting | hle⟩ := h.side n (List.mem_of_getElem? hn) hcorner
  · have hleast := hleast s (List.mem_of_getElem? hs) hwaiting.1
    omega
  · omega

/-- The pool is small as long as all parents are near the start. -/
theorem Tree.length_le (h : Tree q ns) (hcheap : ∀ c ∈ ns, ∀ j p, c.parent = some j → ns[j]? = some p → p.f ≤ 10) :
    ns.length ≤ 25 := by
  let reach : List (ℤ × ℤ) := [-2, -1, 0, 1, 2].flatMap fun x => [-2, -1, 0, 1, 2].map fun y => (x, y)
  have hreach : ∀ d ∈ (0, 0) :: allNeighbors, ∀ d' ∈ (0, 0) :: allNeighbors,
      (d.1 + d'.1, d.2 + d'.2) ∈ reach := by decide
  have hnear : ∀ {i : ℕ} {c : AStarNode}, ns[i]? = some c → c.f ≤ 10 →
      ∃ d ∈ (0, 0) :: allNeighbors, Steps q.startPos d (q.square c) := by
    intro i c hc hf
    by_cases hi : i = 0
    · obtain ⟨b, hb⟩ := h.start
      rw [hi, hb] at hc
      obtain rfl := Option.some.inj hc
      exact ⟨(0, 0), List.mem_cons_self, by simp [Steps, PathQuery.square]⟩
    · obtain ⟨-, -, d, hd, hsteps⟩ := h.child_of_start hc hf hi
      exact ⟨d, List.mem_cons_of_mem _ hd, hsteps⟩
  have hsub : ns.map q.square ⊆ reach.map (neighbor q.startPos) := by
    intro pos hpos
    obtain ⟨c, hc, rfl⟩ := List.mem_map.mp hpos
    obtain ⟨i, hi⟩ := List.mem_iff_getElem?.mp hc
    have hsteps : ∃ d ∈ (0, 0) :: allNeighbors, ∃ d' ∈ (0, 0) :: allNeighbors,
        Steps q.startPos (d.1 + d'.1, d.2 + d'.2) (q.square c) := by
      by_cases hzero : i = 0
      · obtain ⟨d, hd, hsteps⟩ := hnear hi (by
          obtain ⟨b, hb⟩ := h.start
          rw [hzero, hb] at hi
          obtain rfl := Option.some.inj hi
          exact Nat.zero_le 10)
        exact ⟨d, hd, (0, 0), List.mem_cons_self, by simpa using hsteps⟩
      · obtain ⟨j, p, hparent, hp, hchild⟩ := h.child i c hi hzero
        obtain ⟨d, hd, hsteps⟩ := hnear hp (hcheap c hc j p hparent hp)
        obtain ⟨d', hd', hsteps', -⟩ := hchild.step
        refine ⟨d, hd, d', List.mem_cons_of_mem _ hd', ?_, ?_, hsteps'.2.2.trans hsteps.2.2⟩
        · rw [hsteps'.1, hsteps.1, add_assoc]
        · rw [hsteps'.2.1, hsteps.2.1, add_assoc]
    obtain ⟨d, hd, d', hd', hsteps⟩ := hsteps
    exact List.mem_map.mpr ⟨_, hreach d hd d' hd', hsteps.eq_neighbor⟩
  have hlength := h.unique.length_le_of_subset hsub
  rwa [List.length_map, List.length_map] at hlength

theorem mem_modify_cases {f : AStarNode → AStarNode} (h : c ∈ ns.modify i f) :
    (∃ c', ns[i]? = some c' ∧ c = f c') ∨ c ∈ ns := by
  obtain ⟨j, hj⟩ := List.mem_iff_getElem?.mp h
  rcases getElem?_modify_cases hj with ⟨-, hc⟩ | ⟨-, hc⟩
  · exact .inl hc
  · exact .inr (List.mem_of_getElem? hc)

section Visit
variable {found : Bool} {pool pool' : AStarNodes} (htree : Tree q pool.nodes) (hn : pool.nodes[k]? = some n)
  (hinside : q.Inside n (neighbors q.fpp.allowDiagonal (n.parent.bind (pool.nodes[·]?)) n))
  (hvisit : q.visit found k n pool (neighbors q.fpp.allowDiagonal (n.parent.bind (pool.nodes[·]?)) n) = some pool')
include htree hn hinside hvisit

/-- What holds of all parents and of the node that is expanded, and of a node that gets cheaper,
holds of all parents after a visit. -/
theorem visit_parents {Q : AStarNode → Prop} (hQ : Q n) (hcheaper : ∀ c f, Q c → f < c.f → Q (c.reparented k f))
    (h : ∀ c ∈ pool.nodes, ∀ j p, c.parent = some j → pool.nodes[j]? = some p → Q p) :
    ∀ c ∈ pool'.nodes, ∀ j p, c.parent = some j → pool'.nodes[j]? = some p → Q p := by
  refine (visit_tree_rule (P := fun ns => ∀ c ∈ ns, ∀ j p, c.parent = some j → ns[j]? = some p → Q p)
    htree hn hinside ?_ ?_ h hvisit).2.2
  · intro ns i c f _ hn hP hc _ hik _ hf c' hc' j p hparent hp
    rcases mem_modify_cases hc' with ⟨c'', hc'', rfl⟩ | hold
    · obtain rfl := Option.some.inj hparent
      rw [List.getElem?_modify_ne _ _ hik, hn] at hp
      rwa [← Option.some.inj hp]
    · rcases getElem?_modify_cases hp with ⟨rfl, p', hp', rfl⟩ | ⟨-, hp⟩
      · rw [hc] at hp'
        obtain rfl := Option.some.inj hp'
        exact hcheaper c f (hP c' hold j c hparent hc) hf
      · exact hP c' hold j p hparent hp
  · intro ns c htree hn hP hk _ _ c' hc' j p hparent hp
    rcases List.mem_append.mp hc' with hc' | hc'
    · -- the parent was there before
      obtain ⟨m, hm⟩ := List.mem_iff_getElem?.mp hc'
      by_cases hzero : m = 0
      · obtain ⟨b, hb⟩ := htree.start
        rw [hzero, hb] at hm
        obtain rfl := Option.some.inj hm
        cases hparent
      · obtain ⟨j', p', hparent', hp', -⟩ := htree.child m c' hm hzero
        rw [hparent] at hparent'
        obtain rfl := Option.some.inj hparent'
        rw [List.getElem?_append_left (List.getElem?_eq_some_iff.mp hp').1] at hp
        exact hP c' hc' j p hparent hp
    · rw [List.mem_singleton.mp hc', hk] at hparent
      obtain rfl := Option.some.inj hparent
      rw [List.getElem?_append_left (List.getElem?_eq_some_iff.mp hn).1, hn] at hp
      rwa [← Option.some.inj hp]

/-- New ways are no corners, and a corner keeps the node beside it, which may be the one that
is expanded. -/
theorem visit_side (hk : k ≠ 0) (h : Corners q none pool.nodes) : ∀ c ∈ pool'.nodes, IsCorner q c →
    (∃ i s, pool'.nodes[i]? = some s ∧ IsSide q s c ∧ s.f = 10 ∧
      (Waiting (some k) i s ∨ c.f ≤ 20 + q.getTileWalkCost (q.square c))) ∨ (IsSide q n c ∧ n.f = 10) := by
  have hnew : ∀ c : AStarNode, c.parent = some k → ¬ IsCorner q c := by
    rintro c hc ⟨hzero, -⟩
    rw [hc] at hzero
    exact hk (Option.some.inj hzero)
  refine (visit_tree_rule (P := fun ns => ∀ c ∈ ns, IsCorner q c → (∃ i s, ns[i]? = some s ∧ IsSide q s c ∧ s.f = 10 ∧
      (Waiting (some k) i s ∨ c.f ≤ 20 + q.getTileWalkCost (q.square c))) ∨
      (IsSide q n c ∧ n.f = 10)) htree hn hinside ?_ ?_ ?_ hvisit).2.2
  · intro ns i c f _ _ hP hc _ _ hle hf c' hc' hcorner
    rcases mem_modify_cases hc' with ⟨c'', -, rfl⟩ | hc'
    · exact absurd hcorner (hnew _ rfl)
    · rcases hP c' hc' hcorner with ⟨m, s, hs, hside, hten, hor⟩ | hside
      · have hmi : m ≠ i := by
          rintro rfl
          rw [hc] at hs
          obtain rfl := Option.some.inj hs
          omega
        exact .inl ⟨m, s, by rw [List.getElem?_modify_ne _ _ (Ne.symm hmi), hs], hside, hten, hor⟩
      · exact .inr hside
  · intro ns c _ _ hP hparent _ _ c' hc' hcorner
    rcases List.mem_append.mp hc' with hc' | hc'
    · rcases hP c' hc' hcorner with ⟨m, s, hs, hside, hten, hor⟩ | hside
      · exact .inl ⟨m, s, by rw [List.getElem?_append_left (List.getElem?_eq_some_iff.mp hs).1, hs],
          hside, hten, hor⟩
      · exact .inr hside
    · rw [List.mem_singleton.mp hc'] at hcorner
      exact absurd hcorner (hnew c hparent)
  · intro c hc hcorner
    obtain ⟨i, s, hs, hside, hten, hor⟩ := h.side c hc hcorner
    by_cases hik : i = k
    · subst hik
      rw [hn] at hs
      obtain rfl := Option.some.inj hs
      exact .inr ⟨hside, hten⟩
    · exact .inl ⟨i, s, hs, hside, hten, hor.imp_left fun hw => ⟨hw.1, by simpa using hik⟩⟩

/-- The expansion of a node beside the start makes the corners beside it cheap. -/
theorem visit_corner (hk : k ≠ 0) (hallow : q.fpp.allowDiagonal = false) (hroom : pool.nodes.length ≤ 25)
    (hten : n.f = 10) (hc : pool'.nodes[i]? = some c) (hcorner : IsCorner q c) (hside : IsSide q n c) :
    c.f ≤ 20 + q.getTileWalkCost (q.square c) := by
  obtain ⟨htree', -, -⟩ := visit_tree_rule (P := fun _ => True) htree hn hinside
    (fun _ _ _ _ _ _ _ _ _ _ _ _ => trivial)
    (fun _ _ _ _ _ _ _ _ => trivial) trivial hvisit
  obtain ⟨d, hd, hsteps, hd1, hd2, htakes, -⟩ := htree'.corner hc hcorner
  obtain ⟨hnparent, -, e, -, hnsteps⟩ := htree.child_of_start hn (le_of_eq hten) hk
  obtain ⟨b, hb⟩ := htree.start
  have hx : (c.x.toNat : ℤ) = q.startPos.x.toNat + d.1 := hsteps.1
  have hy : (c.y.toNat : ℤ) = q.startPos.y.toNat + d.2 := hsteps.2.1
  -- the way from the node to the corner is among its neighbours
  have hway : ∃ d' ∈ neighbors q.fpp.allowDiagonal (n.parent.bind (pool.nodes[·]?)) n,
      (d'.1 = 0 ∨ d'.2 = 0) ∧ Steps (q.square n) d' (q.square c) := by
    have hlists : ∀ d ∈ allNeighbors, d.1 ≠ 0 → d.2 ≠ 0 →
        (0, d.2) ∈ (dirNeighbors (parentDirection false (-d.1) 0)).take 3 ∧
          (d.1, 0) ∈ (dirNeighbors (parentDirection false 0 (-d.2))).take 3 := by decide
    obtain ⟨hvertical, hhorizontal⟩ := hlists d hd hd1 hd2
    rw [hnparent, Option.bind_some, hb, hallow, neighbors, if_neg Bool.false_ne_true]
    dsimp only
    rcases hside with ⟨hnx, hny⟩ | ⟨hnx, hny⟩
    · refine ⟨(0, d.2), ?_, .inl rfl, ?_, ?_, rfl⟩
      · rw [hnx, hny, hx, sub_self, sub_add_cancel_left]
        exact hvertical
      · show (c.x.toNat : ℤ) = n.x.toNat + 0
        rw [hnx, add_zero]
      · show (c.y.toNat : ℤ) = n.y.toNat + d.2
        rw [hny, hy]
    · refine ⟨(d.1, 0), ?_, .inr rfl, ?_, ?_, rfl⟩
      · rw [hnx, hny, hy, sub_self, sub_add_cancel_left]
        exact hhorizontal
      · show (c.x.toNat : ℤ) = n.x.toNat + d.1
        rw [hnx, hx]
      · show (c.y.toNat : ℤ) = n.y.toNat + 0
        rw [hny, add_zero]
  obtain ⟨d', hd', hstraight, hway⟩ := hway
  have hfew : (neighbors q.fpp.allowDiagonal (n.parent.bind (pool.nodes[·]?)) n).length ≤ 5 := by
    rw [hnparent, Option.bind_some, hb, neighbors, hallow, if_neg Bool.false_ne_true]
    exact le_trans (List.length_take_le ..) (by decide)
  have hneighbor := hway.eq_neighbor
  obtain ⟨c', hc', hsquare, hle⟩ := visit_settles (by rw [maxNodes]; omega) hvisit d' hd'
    (by rwa [hneighbor])
  obtain ⟨j, hj⟩ := List.mem_iff_getElem?.mp hc'
  obtain rfl := htree'.eq_of_square hj hc (hsquare.trans hneighbor)
  rw [hj] at hc
  obtain rfl := Option.some.inj hc
  rw [PathQuery.newf, hneighbor, getMapWalkCost_of_steps (mem_neighbors hd').1 hway, if_pos hstraight, hten] at hle
  exact hle

theorem Corners.visit (h : Corners q none pool.nodes) (hallow : q.fpp.allowDiagonal = false) (hopen : n.isOpen = true)
    (hleast : ∀ c ∈ pool.nodes, c.isOpen = true → n.f ≤ c.f) (hk : k ≠ 0) : Corners q (some k) pool'.nodes where
  started := by
    refine (visit_tree_rule (P := fun ns => ∀ i c, ns[i]? = some c → Waiting (some k) i c →
      i ≠ 0) htree hn hinside ?_ ?_ ?_
      hvisit).2.2
    · intro ns i c f _ _ hP _ hi _ _ _ j c' hc' hwaiting
      rcases getElem?_modify_cases hc' with ⟨rfl, -⟩ | ⟨-, hc'⟩
      · exact hi
      · exact hP j c' hc' hwaiting
    · intro ns c _ hn hP _ _ _ j c' hc' hwaiting
      rcases getElem?_snoc_cases hc' with hc' | ⟨rfl, -⟩
      · exact hP j c' hc' hwaiting
      · have hlt := (List.getElem?_eq_some_iff.mp hn).1
        omega
    · rintro i c hc ⟨hcopen, -⟩ rfl
      exact h.started 0 c hc ⟨hcopen, by simp⟩ rfl
  parents := by
    refine visit_parents htree hn hinside hvisit (h.not_corner htree hn hleast)
      (fun c f _ _ hcorner => hk ?_) h.parents
    exact Option.some.inj hcorner.1
  cheap := by
    by_cases hten : n.f ≤ 10
    · intro _
      refine visit_parents htree hn hinside hvisit hten (fun c f hc hf => ?_)
        (h.cheap ⟨k, n, hn, ⟨hopen, by simp⟩, hten⟩)
      show f ≤ 10
      omega
    · -- no node that is open is that cheap
      have hdear : ∀ i s, pool'.nodes[i]? = some s → Waiting (some k) i s → 10 < s.f := by
        refine (visit_tree_rule (P := fun ns => ∀ i s, ns[i]? = some s → Waiting (some k) i s →
          10 < s.f) htree hn hinside ?_ ?_ ?_
          hvisit).2.2
        · intro ns i c f _ _ hP _ _ _ hle _ j c' hc' hwaiting
          rcases getElem?_modify_cases hc' with ⟨-, c'', -, rfl⟩ | ⟨-, hc'⟩
          · show 10 < f
            omega
          · exact hP j c' hc' hwaiting
        · intro ns c _ _ hP _ _ hle j c' hc' hwaiting
          rcases getElem?_snoc_cases hc' with hc' | ⟨-, rfl⟩
          · exact hP j c' hc' hwaiting
          · omega
        · intro i c hc hwaiting
          have hle := hleast c (List.mem_of_getElem? hc) hwaiting.1
          omega
      rintro ⟨i, s, hs, hwaiting, hle⟩
      have hlt := hdear i s hs hwaiting
      omega
  side c hc hcorner := by
    rcases visit_side htree hn hinside hvisit hk h c hc hcorner with hside | ⟨hside, hten⟩
    · exact hside
    · obtain ⟨-, hn', -⟩ := visit_tree_rule (P := fun _ => True) htree hn hinside
        (fun _ _ _ _ _ _ _ _ _ _ _ _ => trivial)
        (fun _ _ _ _ _ _ _ _ => trivial) trivial hvisit
      obtain ⟨i, hi⟩ := List.mem_iff_getElem?.mp hc
      have hroom := htree.length_le (h.cheap ⟨k, n, hn, ⟨hopen, by simp⟩, le_of_eq hten⟩)
      exact ⟨k, n, hn', hside, hten, .inr (visit_corner htree hn hinside hvisit hk hallow hroom hten hi hcorner hside)⟩

end Visit

theorem Corners.close (h : Corners q (some k) ns) : Corners q none (closeAt ns k) where
  started i c hc hwaiting := by
    obtain ⟨c', b, hc', rfl, hopen⟩ := getElem?_closeAt_cases hc
    obtain ⟨hopen, hik⟩ := hopen hwaiting.1
    exact h.started i c' hc' ⟨hopen, by simpa using hik⟩
  parents c hc j p hparent hp := by
    obtain ⟨i, hi⟩ := List.mem_iff_getElem?.mp hc
    obtain ⟨c', b, hc', rfl, -⟩ := getElem?_closeAt_cases hi
    obtain ⟨p', b', hp', rfl, -⟩ := getElem?_closeAt_cases hp
    exact h.parents c' (List.mem_of_getElem? hc') j p' hparent hp'
  cheap := by
    rintro ⟨i, s, hs, hwaiting, hf⟩ c hc j p hparent hp
    obtain ⟨m, hm⟩ := List.mem_iff_getElem?.mp hc
    obtain ⟨s', b, hs', rfl, hopen⟩ := getElem?_closeAt_cases hs
    obtain ⟨hopen, hik⟩ := hopen hwaiting.1
    obtain ⟨c', b', hc', rfl, -⟩ := getElem?_closeAt_cases hm
    obtain ⟨p', b'', hp', rfl, -⟩ := getElem?_closeAt_cases hp
    exact h.cheap ⟨i, s', hs', ⟨hopen, by simpa using hik⟩, hf⟩ c'
      (List.mem_of_getElem? hc') j p' hparent hp'
  side c hc hcorner := by
    obtain ⟨m, hm⟩ := List.mem_iff_getElem?.mp hc
    obtain ⟨c', b, hc', rfl, -⟩ := getElem?_closeAt_cases hm
    obtain ⟨i, s, hs, hside, hten, hor⟩ := h.side c' (List.mem_of_getElem? hc') hcorner
    obtain ⟨b', hb', hopen⟩ := getElem?_closeAt hs k
    refine ⟨i, _, hb', hside, hten, hor.imp_left fun hwaiting => ⟨hopen hwaiting.1 ?_, by simp⟩⟩
    simpa using hwaiting.2

/-- The first expansion, that of the start, makes the corners. -/
theorem corners_start {found : Bool} {pool' : AStarNodes} (hfree : CornersFree q) (hn : q.startPool.nodes[k]? = some n)
    (hinside : q.Inside n (neighbors q.fpp.allowDiagonal (n.parent.bind (q.startPool.nodes[·]?)) n))
    (hvisit : q.visit found k n q.startPool
      (neighbors q.fpp.allowDiagonal (n.parent.bind (q.startPool.nodes[·]?)) n) = some pool') :
    Corners q (some k) pool'.nodes := by
  have hk : k = 0 := by
    have hlt := (List.getElem?_eq_some_iff.mp hn).1
    rw [startPool, List.length_singleton] at hlt
    omega
  subst hk
  obtain rfl := Option.some.inj hn
  -- the nodes are the start and its children, all of them open
  obtain ⟨htree, hstart, hchildren⟩ := visit_tree_rule (P := fun ns => ∀ i c, ns[i]? = some c → i ≠ 0 →
      c.parent = some 0 ∧ c.isOpen = true) tree_startPool hn hinside
    (by
      intro ns i c f _ _ hP _ _ _ _ _ j c' hc' hj
      rcases getElem?_modify_cases hc' with ⟨-, c'', -, rfl⟩ | ⟨-, hc'⟩
      · exact ⟨rfl, rfl⟩
      · exact hP j c' hc' hj)
    (by
      intro ns c _ _ hP hparent hopen _ j c' hc' hj
      rcases getElem?_snoc_cases hc' with hc' | ⟨-, rfl⟩
      · exact hP j c' hc' hj
      · exact ⟨hparent, hopen⟩)
    (by
      intro i c hc hi
      have hlt := (List.getElem?_eq_some_iff.mp hc).1
      rw [startPool, List.length_singleton] at hlt
      omega) hvisit
  have hparent : ∀ c ∈ pool'.nodes, ∀ j p, c.parent = some j → pool'.nodes[j]? = some p →
      p.f = 0 ∧ p.parent = none := by
    intro c hc j p hj hp
    obtain ⟨i, hi⟩ := List.mem_iff_getElem?.mp hc
    have hzero : i ≠ 0 := by
      rintro rfl
      rw [hstart] at hi
      obtain rfl := Option.some.inj hi
      cases hj
    rw [(hchildren i c hi hzero).1] at hj
    obtain rfl := Option.some.inj hj
    rw [hstart] at hp
    obtain rfl := Option.some.inj hp
    exact ⟨rfl, rfl⟩
  refine ⟨fun i c _ hwaiting => by simpa using hwaiting.2, fun c hc j p hj hp hcorner => ?_,
    fun _ c hc j p hj hp => ?_,
    fun c hc hcorner => ?_⟩
  · have hnone := (hparent c hc j p hj hp).2
    rw [hcorner.1] at hnone
    cases hnone
  · have hzero := (hparent c hc j p hj hp).1
    omega
  · have hside : ∀ e ∈ allNeighbors, e.1 = 0 ∨ e.2 = 0 → q.free (neighbor q.startPos e) = true →
        ∃ i s, pool'.nodes[i]? = some s ∧ s.f = 10 ∧ Waiting (some 0) i s ∧ Steps q.startPos e (q.square s) := by
      intro e he hstraight hefree
      obtain ⟨htakes, hcost⟩ : q.takes (neighbor q.startPos e) = true ∧
        q.getTileWalkCost (neighbor q.startPos e) = 0 := by
        simpa [PathQuery.free] using hefree
      have hsteps : Steps q.startPos e (neighbor q.startPos e) := hinside e he htakes
      obtain ⟨s, hs, hsquare, hle⟩ := @visit_settles _ _ _ _ allNeighbors _ _
        (Nat.le_of_ble_eq_true rfl) hvisit e he htakes
      obtain ⟨i, hi⟩ := List.mem_iff_getElem?.mp hs
      have hsquare' : q.square s = neighbor q.startPos e := hsquare
      rw [← hsquare'] at hsteps
      have hzero : i ≠ 0 := by
        rintro rfl
        rw [hstart] at hi
        obtain rfl := Option.some.inj hi
        exact (hsteps.adjacent he).1 rfl
      have hnewf : q.newf { parent := none, f := 0, x := q.startPos.x, y := q.startPos.y } e =
          10 := by
        have hneighbor : neighbor (q.square
            { parent := none, f := 0, x := q.startPos.x, y := q.startPos.y }) e =
          neighbor q.startPos e := rfl
        have hsteps' : Steps (q.square { parent := none, f := 0, x := q.startPos.x, y := q.startPos.y }) e
          (neighbor q.startPos e) := hinside e he htakes
        rw [PathQuery.newf, hneighbor, hcost, getMapWalkCost_of_steps he hsteps', if_pos hstraight]
      have hten := htree.normal_le hi hzero
      exact ⟨i, s, hi, by omega, ⟨(hchildren i s hi hzero).2, by simpa using hzero⟩, hsteps⟩
    obtain ⟨i, hi⟩ := List.mem_iff_getElem?.mp hc
    obtain ⟨d, hd, hsteps, hd1, hd2, htakes, -⟩ := htree.corner hi hcorner
    have hsides : ∀ d ∈ allNeighbors, d.1 ≠ 0 → d.2 ≠ 0 →
        (d.1, 0) ∈ allNeighbors ∧ (0, d.2) ∈ allNeighbors := by decide
    obtain ⟨hhorizontal, hvertical⟩ := hsides d hd hd1 hd2
    have hx : (c.x.toNat : ℤ) = q.startPos.x.toNat + d.1 := hsteps.1
    have hy : (c.y.toNat : ℤ) = q.startPos.y.toNat + d.2 := hsteps.2.1
    rcases hfree d hd hd1 hd2 (by rwa [hsteps.eq_neighbor]) with hside' | hside'
    · obtain ⟨m, s, hs, hten, hwaiting, hsteps'⟩ := hside _ hhorizontal (.inr rfl) hside'
      have hsx : (s.x.toNat : ℤ) = q.startPos.x.toNat + d.1 := hsteps'.1
      have hsy : (s.y.toNat : ℤ) = q.startPos.y.toNat + 0 := hsteps'.2.1
      refine ⟨m, s, hs, .inl ⟨UInt16.toNat_inj.mp ?_, UInt16.toNat_inj.mp ?_⟩, hten, .inl hwaiting⟩ <;> omega
    · obtain ⟨m, s, hs, hten, hwaiting, hsteps'⟩ := hside _ hvertical (.inl rfl) hside'
      have hsx : (s.x.toNat : ℤ) = q.startPos.x.toNat + 0 := hsteps'.1
      have hsy : (s.y.toNat : ℤ) = q.startPos.y.toNat + d.2 := hsteps'.2.1
      refine ⟨m, s, hs, .inr ⟨UInt16.toNat_inj.mp ?_, UInt16.toNat_inj.mp ?_⟩, hten, .inl hwaiting⟩ <;> omega

end Corners

/-! ## The loop -/

/-- The variables after a turn of the loop, if it goes on, and the node that has been expanded. -/
def PathQuery.turn (q : PathQuery) (s : Progress) : Option (ℕ × AStarNode × Progress) :=
  if q.fpp.maxSearchDist = 0 ∧ 100 ≤ s.pool.closedNodes then none
  else
    match s.pool.getBestNode.bind fun k => s.pool.nodes[k]?.map fun n => (k, n) with
    | none => none
    | some (k, n) =>
      let marked := q.mark s k n
      if (q.pathCondition (q.square n) s.bestMatch).isSome && marked.bestMatch = 0 then none
      else
        (q.visit marked.found.isSome k n marked.pool
          (neighbors q.fpp.allowDiagonal (n.parent.bind (s.pool.nodes[·]?)) n)).map fun pool =>
          (k, n, { marked with pool := pool.closeNode k })

/-- The variables at the beginnings of the turns. -/
inductive Turns (q : PathQuery) : Progress → Prop
  | start : Turns q { pool := q.startPool }
  | turn {s s' : Progress} {k : ℕ} {n : AStarNode} (h : Turns q s) (hturn : q.turn s = some (k, n, s')) : Turns q s'

/-- The squares that are taken from a node that is expanded lie beside it. -/
def StaysInside (q : PathQuery) : Prop :=
  ∀ s k n s', Turns q s → q.turn s = some (k, n, s') →
    q.Inside n (neighbors q.fpp.allowDiagonal (n.parent.bind (s.pool.nodes[·]?)) n)

structure Searched (q : PathQuery) (s : Progress) : Prop where
  tree : Tree q s.pool.nodes
  best : 0 ≤ s.bestMatch
  found : ∀ k pos, s.found = some (k, pos) → ∃ c, s.pool.nodes[k]? = some c ∧ q.square c = pos ∧
    (q.pathCondition pos 0).isSome = true ∧ (q.fpp.allowDiagonal = false → ¬ IsCorner q c)
  corners : q.fpp.allowDiagonal = false → s.pool = q.startPool ∨ Corners q none s.pool.nodes

section Loop
variable {s : Progress}

/-- What is met after better matches is met at first. -/
theorem pathCondition_zero {pos : Position} {best best' : ℤ} (hbest : 0 ≤ best)
    (h : q.pathCondition pos best = some best') : (q.pathCondition pos 0).isSome = true ∧ 0 ≤ best' := by
  have hdist : 0 ≤ max |(q.targetPos.x.toNat : ℤ) - pos.x.toNat| |(q.targetPos.y.toNat : ℤ) - pos.y.toNat| :=
    le_max_of_le_left (abs_nonneg _)
  unfold PathQuery.pathCondition at h ⊢
  dsimp only at h ⊢
  generalize max |(q.targetPos.x.toNat : ℤ) - pos.x.toNat| |(q.targetPos.y.toNat : ℤ) -
    pos.y.toNat| = testDist at hdist h ⊢
  split at h
  · cases h
  · rename_i hinside
    rw [if_neg hinside]
    split at h
    · rename_i hone
      rw [if_pos hone]
      split at h
      · cases h
      · rename_i hrange
        rw [if_neg hrange]
        exact ⟨rfl, Option.some.inj h ▸ hbest⟩
    · rename_i hone
      rw [if_neg hone]
      split at h
      · rename_i hmax
        rw [if_pos hmax]
        split at h
        · cases h
        · rename_i hmin
          rw [if_neg hmin]
          split at h
          · rename_i hexact
            rw [if_pos hexact]
            exact ⟨rfl, Option.some.inj h ▸ le_refl _⟩
          · rename_i hexact
            rw [if_neg hexact]
            split at h
            · rw [if_pos (by omega)]
              exact ⟨rfl, Option.some.inj h ▸ hdist⟩
            · cases h
      · cases h

@[simp] theorem mark_pool (s : Progress) (k : ℕ) (n : AStarNode) : (q.mark s k n).pool = s.pool := by
  unfold PathQuery.mark
  split <;> rfl

theorem searched_mark (h : Searched q s) (hn : s.pool.nodes[k]? = some n)
    (hcorner : q.fpp.allowDiagonal = false → ¬ IsCorner q n) : Searched q (q.mark s k n) := by
  unfold PathQuery.mark
  split
  · rename_i best' hmatch
    obtain ⟨hzero, hbest⟩ := pathCondition_zero h.best hmatch
    refine ⟨h.tree, hbest, fun k' pos hfound => ?_, h.corners⟩
    obtain ⟨rfl, rfl⟩ := Prod.mk.inj (Option.some.inj hfound)
    exact ⟨n, hn, rfl, hzero, hcorner⟩
  · exact h

theorem found_visit {found : Bool} {pool' : AStarNodes} {fk : ℕ} {pos : Position}
    (htree : Tree q s.pool.nodes) (hn : s.pool.nodes[k]? = some n)
    (hinside : q.Inside n (neighbors q.fpp.allowDiagonal (n.parent.bind (s.pool.nodes[·]?)) n))
    (hvisit : q.visit found k n s.pool
      (neighbors q.fpp.allowDiagonal (n.parent.bind (s.pool.nodes[·]?)) n) = some pool')
    (hk : q.fpp.allowDiagonal = false → k ≠ 0 ∨ fk = 0)
    (h : ∃ c, s.pool.nodes[fk]? = some c ∧ q.square c = pos ∧ (q.fpp.allowDiagonal = false → ¬ IsCorner q c)) :
    ∃ c, pool'.nodes[fk]? = some c ∧ q.square c = pos ∧ (q.fpp.allowDiagonal = false → ¬ IsCorner q c) := by
  refine (visit_tree_rule (P := fun ns => ∃ c, ns[fk]? = some c ∧ q.square c = pos ∧
    (q.fpp.allowDiagonal = false → ¬ IsCorner q c)) htree hn hinside ?_ ?_ h hvisit).2.2
  · rintro ns i c f _ _ ⟨c', hc', hsquare, hcorner⟩ hc hi _ _ _
    by_cases hfk : fk = i
    · subst hfk
      refine ⟨c'.reparented k f, by rw [List.getElem?_modify_eq, hc']; rfl, hsquare,
        fun hallow hnew => ?_⟩
      rcases hk hallow with hk | hk
      · exact hk (Option.some.inj hnew.1)
      · exact hi hk
    · exact ⟨c', by rw [List.getElem?_modify_ne _ _ (Ne.symm hfk), hc'], hsquare, hcorner⟩
  · rintro ns c _ _ ⟨c', hc', hsquare, hcorner⟩ _ _ _
    exact ⟨c', by rw [List.getElem?_append_left (List.getElem?_eq_some_iff.mp hc').1, hc'],
      hsquare, hcorner⟩

theorem Searched.expand {pool' : AStarNodes} {found : Bool} (h : Searched q s)
    (hfree : q.fpp.allowDiagonal = false → CornersFree q) (hn : s.pool.nodes[k]? = some n)
    (hinside : q.Inside n (neighbors q.fpp.allowDiagonal (n.parent.bind (s.pool.nodes[·]?)) n))
    (hopen : n.isOpen = true) (hleast : ∀ c ∈ s.pool.nodes, c.isOpen = true → n.f ≤ c.f)
    (hvisit : q.visit found k n s.pool
      (neighbors q.fpp.allowDiagonal (n.parent.bind (s.pool.nodes[·]?)) n) = some pool') :
    Searched q { s with pool := pool'.closeNode k } := by
  have hstarted : Corners q none s.pool.nodes → k ≠ 0 :=
    fun hcorners => hcorners.started k n hn ⟨hopen, by simp⟩
  have htree := (visit_tree_rule (P := fun _ => True) h.tree hn hinside (fun _ _ _ _ _ _ _ _ _ _ _ _ => trivial)
    (fun _ _ _ _ _ _ _ _ => trivial) trivial hvisit).1
  refine ⟨htree.close k, h.best, fun fk pos hfound => ?_, fun hallow => .inr ?_⟩
  · obtain ⟨c, hc, hsquare, hmatch, hcorner⟩ := h.found fk pos hfound
    have hk : q.fpp.allowDiagonal = false → k ≠ 0 ∨ fk = 0 := by
      intro hallow
      rcases h.corners hallow with hstart | hcorners
      · have hlt := (List.getElem?_eq_some_iff.mp hc).1
        rw [hstart, startPool, List.length_singleton] at hlt
        exact .inr (by omega)
      · exact .inl (hstarted hcorners)
    obtain ⟨c', hc', hsquare', hcorner'⟩ :=
      found_visit h.tree hn hinside hvisit hk ⟨c, hc, hsquare, hcorner⟩
    obtain ⟨b, hb, -⟩ := getElem?_closeAt hc' k
    exact ⟨_, hb, hsquare', hmatch, hcorner'⟩
  · rcases h.corners hallow with hstart | hcorners
    · rw [hstart] at hn hvisit hinside
      exact (corners_start (hfree hallow) hn hinside hvisit).close
    · exact (hcorners.visit h.tree hn hinside hvisit hallow hopen hleast (hstarted hcorners)).close

theorem Searched.search {fuel : ℕ} {s' : Progress} (h : Searched q s) (hturns : Turns q s)
    (hinside : StaysInside q) (hfree : q.fpp.allowDiagonal = false → CornersFree q)
    (hsearch : q.search fuel s = some (some s')) : Searched q s' := by
  induction fuel generalizing s with
  | zero => cases hsearch
  | succ fuel ih =>
    rw [PathQuery.search] at hsearch
    split at hsearch
    · obtain rfl := Option.some.inj (Option.some.inj hsearch)
      exact h
    · rename_i hlimit
      split at hsearch
      · obtain ⟨-, -, rfl⟩ := Option.map_eq_some_iff.mp (Option.some.inj hsearch)
        exact h
      · rename_i k n hbest
        obtain ⟨k', hk', hmap⟩ := Option.bind_eq_some_iff.mp hbest
        obtain ⟨n', hn', hpair⟩ := Option.map_eq_some_iff.mp hmap
        obtain ⟨rfl, rfl⟩ := Prod.mk.inj hpair
        obtain ⟨n'', hn'', hopen, hleast⟩ := getBestNode_spec hk'
        rw [hn'] at hn''
        obtain rfl := Option.some.inj hn''
        have hcorner : q.fpp.allowDiagonal = false → ¬ IsCorner q n' := by
          intro hallow
          rcases h.corners hallow with hstart | hcorners
          · rintro ⟨hparent, -⟩
            rw [hstart] at hn'
            have hmem := List.mem_of_getElem? hn'
            rw [startPool, List.mem_singleton] at hmem
            rw [hmem] at hparent
            cases hparent
          · exact hcorners.not_corner h.tree hn' hleast
        have hmarked := searched_mark h hn' hcorner
        dsimp only at hsearch
        split at hsearch
        · obtain rfl := Option.some.inj (Option.some.inj hsearch)
          exact hmarked
        · rename_i hmatch
          split at hsearch
          · cases hsearch
          · rename_i pool' hvisit
            have hturn : q.turn s = some (k', n', { q.mark s k' n' with pool := pool'.closeNode k' }) := by
              unfold PathQuery.turn
              rw [if_neg hlimit, hbest]
              dsimp only
              rw [if_neg hmatch, hvisit, Option.map_some]
            have hstays := hinside s k' n' _ hturns hturn
            rw [← mark_pool s k' n'] at hn' hleast hvisit hstays
            exact ih (hmarked.expand hfree hn' hstays hopen hleast hvisit) (hturns.turn hturn) hsearch

theorem searched_start (q : PathQuery) : Searched q { pool := q.startPool } where
  tree := tree_startPool
  best := le_refl _
  found k pos h := by cases h
  corners _ := .inl rfl

/-- The node that is expanded first. -/
def PathQuery.startNode (q : PathQuery) : AStarNode := { parent := none, f := 0, x := q.startPos.x, y := q.startPos.y }

theorem best_startPool (q : PathQuery) :
    (q.startPool.getBestNode.bind fun k => q.startPool.nodes[k]?.map fun n => (k, n)) = some (0, q.startNode) := by
  simp [startPool, getBestNode, bestFrom, startNode]

/-- The search ends at once where the start is as good a match as can be. -/
theorem searched_of_search {fuel : ℕ} (hinside : StaysInside q)
    (hfree : q.fpp.allowDiagonal = false → q.pathCondition q.startPos 0 ≠ some 0 → CornersFree q)
    (hsearch : q.search fuel { pool := q.startPool } = some (some s)) : Searched q s := by
  by_cases hmatch : q.pathCondition q.startPos 0 = some 0
  · cases fuel with
    | zero => cases hsearch
    | succ fuel =>
      have hlimit : ¬(q.fpp.maxSearchDist = 0 ∧ (100 : ℤ) ≤ q.startPool.closedNodes) := by simp [startPool]
      have hstart : q.pathCondition (q.square q.startNode) 0 = some 0 := hmatch
      have hbest : (q.mark { pool := q.startPool } 0 q.startNode).bestMatch = 0 := by
        rw [PathQuery.mark, hstart]
      have hends : ((q.pathCondition (q.square q.startNode) 0).isSome &&
          decide ((q.mark { pool := q.startPool } 0 q.startNode).bestMatch = 0)) = true := by
        rw [hstart, hbest]
        rfl
      rw [PathQuery.search, if_neg hlimit, best_startPool] at hsearch
      dsimp only at hsearch
      rw [if_pos hends] at hsearch
      obtain rfl := Option.some.inj (Option.some.inj hsearch)
      exact searched_mark (searched_start q) rfl fun _ hcorner => by cases hcorner.1
  · exact (searched_start q).search .start hinside (fun hallow => hfree hallow hmatch) hsearch

end Loop

/-! ## The end of the search -/

section Ends

theorem sum_reparented {f : ℕ} (hc : ns[i]? = some c) (hf : f < c.f) :
    ((ns.modify i (·.reparented k f)).map (·.f)).sum < (ns.map (·.f)).sum := by
  induction ns generalizing i with
  | nil => cases hc
  | cons n ns ih =>
    cases i with
    | zero =>
      obtain rfl := Option.some.inj hc
      rw [List.modify_zero_cons, List.map_cons, List.map_cons, List.sum_cons, List.sum_cons]
      exact Nat.add_lt_add_right hf _
    | succ i =>
      rw [List.modify_succ_cons, List.map_cons, List.map_cons, List.sum_cons, List.sum_cons]
      exact Nat.add_lt_add_left (ih hc) _

@[simp] theorem sum_closeAt (ns : List AStarNode) (k : ℕ) : ((closeAt ns k).map (·.f)).sum = (ns.map (·.f)).sum := by
  induction ns generalizing k with
  | nil => rw [closeAt, List.modify_nil]
  | cons m ns ih =>
    cases k with
    | zero => rfl
    | succ k =>
      rw [closeAt, List.modify_succ_cons, List.map_cons, List.map_cons, List.sum_cons, List.sum_cons]
      exact congrArg (m.f + ·) (ih k)

theorem countP_closeAt (hn : ns[k]? = some n) (hopen : n.isOpen = true) :
    (closeAt ns k).countP (·.isOpen) < ns.countP (·.isOpen) := by
  induction ns generalizing k with
  | nil => cases hn
  | cons m ns ih =>
    cases k with
    | zero =>
      obtain rfl := Option.some.inj hn
      rw [closeAt, List.modify_zero_cons, List.countP_cons, List.countP_cons, hopen]
      simp
    | succ k =>
      rw [closeAt, List.modify_succ_cons, List.countP_cons, List.countP_cons]
      exact Nat.add_lt_add_right (ih hn) _

/-- A visit makes a node, or makes one cheaper, or leaves the pool as it is. -/
theorem visit_weight {found : Bool} {ds : List (ℤ × ℤ)} {pool pool' : AStarNodes}
    (h : q.visit found k n pool ds = some pool') :
    maxNodes - pool'.nodes.length < maxNodes - pool.nodes.length ∨ pool'.nodes.length = pool.nodes.length ∧
        (pool'.nodes.map (·.f)).sum < (pool.nodes.map (·.f)).sum ∨
        pool'.nodes = pool.nodes := by
  refine visit_rule (P := fun ns => maxNodes - ns.length < maxNodes - pool.nodes.length ∨
    ns.length = pool.nodes.length ∧ (ns.map (·.f)).sum < (pool.nodes.map (·.f)).sum ∨ ns = pool.nodes) ?_ ?_
    (.inr (.inr rfl)) h
  · intro ns i c d hP _ hc _ hf
    have hsum := sum_reparented (k := k) hc hf
    rw [List.length_modify]
    rcases hP with hP | ⟨hlength, hP⟩ | rfl
    · exact .inl hP
    · exact .inr (.inl ⟨hlength, hsum.trans hP⟩)
    · exact .inr (.inl ⟨rfl, hsum⟩)
  · intro ns d hP _ hroom _ _
    rw [List.length_append, List.length_singleton]
    rcases hP with hP | ⟨hlength, -⟩ | rfl
    · exact .inl (by omega)
    · exact .inl (by omega)
    · exact .inl (by omega)

/-- Every turn of the loop makes a node, or a node cheaper, or else closes one. -/
theorem search_ends (q : PathQuery) (s : Progress) : ∃ fuel r, q.search fuel s = some r := by
  by_cases hlimit : q.fpp.maxSearchDist = 0 ∧ 100 ≤ s.pool.closedNodes
  · exact ⟨1, some s, by rw [PathQuery.search, if_pos hlimit]⟩
  cases hbest : s.pool.getBestNode.bind fun k => s.pool.nodes[k]?.map fun n => (k, n) with
  | none => exact ⟨1, _, by rw [PathQuery.search, if_neg hlimit, hbest]⟩
  | some kn =>
    obtain ⟨k, n⟩ := kn
    by_cases hmatch : ((q.pathCondition (q.square n) s.bestMatch).isSome && (q.mark s k n).bestMatch = 0) = true
    · exact ⟨1, _, by rw [PathQuery.search, if_neg hlimit, hbest]; exact if_pos hmatch⟩
    cases hvisit : q.visit (q.mark s k n).found.isSome k n (q.mark s k n).pool
        (neighbors q.fpp.allowDiagonal (n.parent.bind (s.pool.nodes[·]?)) n) with
    | none =>
      refine ⟨1, none, ?_⟩
      rw [PathQuery.search, if_neg hlimit, hbest]
      dsimp only
      rw [if_neg hmatch, hvisit]
    | some pool =>
      have hdecrease : Prod.Lex (· < ·) (Prod.Lex (· < ·) (· < ·))
          (maxNodes - (closeAt pool.nodes k).length, ((closeAt pool.nodes k).map (·.f)).sum,
            (closeAt pool.nodes k).countP (·.isOpen))
          (maxNodes - s.pool.nodes.length, (s.pool.nodes.map (·.f)).sum, s.pool.nodes.countP (·.isOpen)) := by
        rw [mark_pool] at hvisit
        obtain ⟨k', hk', hmap⟩ := Option.bind_eq_some_iff.mp hbest
        obtain ⟨n', hn', hpair⟩ := Option.map_eq_some_iff.mp hmap
        obtain ⟨rfl, rfl⟩ := Prod.mk.inj hpair
        obtain ⟨n'', hn'', hopen, -⟩ := getBestNode_spec hk'
        rw [hn'] at hn''
        obtain rfl := Option.some.inj hn''
        rw [sum_closeAt, List.length_modify]
        rcases visit_weight hvisit with hmade | ⟨hlength, hcheaper⟩ | hsame
        · exact .left _ _ hmade
        · rw [hlength]
          exact .right _ (.left _ _ hcheaper)
        · rw [hsame]
          exact .right _ (.right _ (countP_closeAt hn' hopen))
      obtain ⟨fuel, r, hr⟩ := search_ends q { q.mark s k n with pool := pool.closeNode k }
      refine ⟨fuel + 1, r, ?_⟩
      rw [PathQuery.search, if_neg hlimit, hbest]
      dsimp only
      rw [if_neg hmatch, hvisit]
      exact hr
termination_by (maxNodes - s.pool.nodes.length, (s.pool.nodes.map (·.f)).sum, s.pool.nodes.countP (·.isOpen))
decreasing_by exact hdecrease

theorem search_mono {fuel : ℕ} {s : Progress} {r : Option Progress}
    (h : q.search fuel s = some r) (m : ℕ) :
    q.search (fuel + m) s = some r := by
  induction fuel generalizing s with
  | zero => cases h
  | succ fuel ih =>
    rw [Nat.add_right_comm]
    rw [PathQuery.search] at h ⊢
    split at h
    · rename_i hlimit
      rwa [if_pos hlimit]
    · rename_i hlimit
      rw [if_neg hlimit]
      split at h
      · exact h
      · dsimp only at h ⊢
        split at h
        · rename_i hmatch
          rwa [if_pos hmatch]
        · rename_i hmatch
          rw [if_neg hmatch]
          split at h
          · exact h
          · exact ih h

theorem readBack_ends {fuel : ℕ} (h : Tree q ns) (hc : ns[i]? = some c) (hfuel : c.f < fuel) :
    ∃ dirList, q.readBack ns fuel (q.square c) c.parent = some dirList := by
  induction fuel generalizing i c with
  | zero => omega
  | succ fuel ih =>
    by_cases hi : i = 0
    · obtain ⟨b, hb⟩ := h.start
      rw [hi, hb] at hc
      obtain rfl := Option.some.inj hc
      exact ⟨[], rfl⟩
    · obtain ⟨j, p, hparent, hp, hchild⟩ := h.child i c hc hi
      have hcost := hchild.cost
      have hstep := normal_le_getMapWalkCost p (q.square c)
      obtain ⟨rest, hrest⟩ := ih hp (by omega)
      exact ⟨_, by rw [hparent, PathQuery.readBack, hp, Option.bind_some, hrest, Option.map_some]⟩

end Ends

/-! ## Paths -/

/-- What the search puts out is a path: it leads over squares that the creature can walk to, from
each to one beside it, straight on if it must be, and ends where the condition is met. -/
theorem path_leads (q : PathQuery) (hinside : StaysInside q)
    (hfree : q.fpp.allowDiagonal = false → q.pathCondition q.startPos 0 ≠ some 0 → CornersFree q) :
    (∃ fuel r, q.getPathMatching fuel = some r) ∧ ∀ fuel dirList, q.getPathMatching fuel = some (some dirList) →
      ∃ pos, Leads q dirList pos ∧ (q.pathCondition pos 0).isSome = true := by
  constructor
  · obtain ⟨fuel, r, hsearch⟩ := search_ends q { pool := q.startPool }
    cases r with
    | none => exact ⟨fuel, none, by rw [PathQuery.getPathMatching, hsearch]⟩
    | some s =>
      have hsearched := searched_of_search hinside hfree hsearch
      cases hfound : s.found with
      | none =>
        exact ⟨fuel, none, by rw [PathQuery.getPathMatching, hsearch]; dsimp only; rw [hfound]⟩
      | some kpos =>
        obtain ⟨k, endPos⟩ := kpos
        obtain ⟨c, hc, rfl, -⟩ := hsearched.found k endPos hfound
        obtain ⟨dirList, hread⟩ := readBack_ends hsearched.tree hc (Nat.lt_add_left fuel (Nat.lt_succ_self c.f))
        refine ⟨fuel + (c.f + 1), some dirList, ?_⟩
        rw [PathQuery.getPathMatching, search_mono hsearch]
        dsimp only
        rw [hfound]
        dsimp only
        rw [hc, Option.bind_some, hread, Option.map_some]
  · intro fuel dirList h
    unfold PathQuery.getPathMatching at h
    split at h
    · cases h
    · cases h
    · rename_i s hsearch
      have hsearched := searched_of_search hinside hfree hsearch
      split at h
      · cases h
      · rename_i k endPos hfound
        obtain ⟨c, hc, rfl, hmatch, hcorner⟩ := hsearched.found k endPos hfound
        obtain ⟨dirList', hread, hdirs⟩ := Option.map_eq_some_iff.mp h
        obtain rfl := Option.some.inj hdirs
        rw [hc, Option.bind_some] at hread
        refine ⟨q.square c, leads_readBack hsearched.tree ?_ hc hcorner hread, hmatch⟩
        intro hallow c' hc' j p hparent hp
        rcases hsearched.corners hallow with hstart | hcorners
        · rw [hstart, startPool, List.mem_singleton] at hc'
          rw [hc'] at hparent
          cases hparent
        · exact hcorners.parents c' hc' j p hparent hp

/-- With a search distance that does not go over the edge of the map, no square across it is taken.
-/
theorem inside_of_maxSearchDist (h : q.fpp.maxSearchDist ≠ 0)
    (hx : q.fpp.maxSearchDist < q.startPos.x.toNat ∧ q.startPos.x.toNat + q.fpp.maxSearchDist < 65535)
    (hy : q.fpp.maxSearchDist < q.startPos.y.toNat ∧ q.startPos.y.toNat + q.fpp.maxSearchDist < 65535) :
    StaysInside q := by
  intro s k n s' _ _ d hmem htakes
  have hd := (mem_neighbors hmem).1
  generalize q.square n = p at htakes ⊢
  have hsmall : ∀ d ∈ allNeighbors, -1 ≤ d.1 ∧ d.1 ≤ 1 ∧ -1 ≤ d.2 ∧ d.2 ≤ 1 := by decide
  obtain ⟨hd1, hd1', hd2, hd2'⟩ := hsmall d hd
  have hnear : |(q.startPos.x.toNat : ℤ) - (neighbor p d).x.toNat| ≤ q.fpp.maxSearchDist ∧
      |(q.startPos.y.toNat : ℤ) - (neighbor p d).y.toNat| ≤ q.fpp.maxSearchDist := by
    rw [PathQuery.takes, Bool.and_eq_true, Bool.not_eq_true'] at htakes
    have hinside := htakes.1
    simp [PathQuery.isOutside, h] at hinside
    exact hinside.1
  have hnat : ∀ z : ℤ, ((UInt16.ofInt z).toNat : ℤ) = z % 65536 := by
    intro z
    rw [UInt16.ofInt, UInt16.toNat_ofNat']
    omega
  rw [abs_le, abs_le] at hnear
  have hpx := p.x.toNat_lt
  have hpy := p.y.toNat_lt
  have hnx : ((neighbor p d).x.toNat : ℤ) = (p.x.toNat + d.1) % 65536 := hnat _
  have hny : ((neighbor p d).y.toNat : ℤ) = (p.y.toNat + d.2) % 65536 := hnat _
  exact ⟨by omega, by omega, rfl⟩

/-- A yard of three squares around a corner, and without the one in the corner. -/
def yard : Map := ((({} : Map).setTile ⟨5, 5, 7⟩ {}).setTile ⟨6, 6, 7⟩ {}).setTile ⟨6, 5, 7⟩ {}

def gap : Map := (({} : Map).setTile ⟨5, 5, 7⟩ {}).setTile ⟨6, 6, 7⟩ {}

/-- A search for a way without diagonal steps. -/
def straightQuery (map : Map) : PathQuery :=
  { map, creature := { position := ⟨5, 5, 7⟩ }, targetPos := ⟨6, 6, 7⟩
    fpp := { allowDiagonal := false, maxSearchDist := 3, minTargetDist := 0, maxTargetDist := 0 } }

theorem path_leads_yard : ∃ pos, Leads (straightQuery yard) [.south, .east] pos ∧
    ((straightQuery yard).pathCondition pos 0).isSome = true :=
  (path_leads (straightQuery yard) (inside_of_maxSearchDist (by decide) (by decide) (by decide))
    (fun _ _ => by unfold CornersFree; decide +kernel)).2 8 [.south, .east] (by decide +kernel)

/-- Between two squares that touch at a corner only, the way without diagonal steps is one. -/
theorem first_step_is_diagonal : (straightQuery gap).fpp.allowDiagonal = false ∧
    (straightQuery gap).getPathMatching 8 = some (some [.southeast]) ∧ Direction.southeast.isDiagonal = true := by
  decide +kernel

end ForgottenServer.Maps
