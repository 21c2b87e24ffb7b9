import Mathlib.Data.List.Chain
import ForgottenServer.Maps.Path

/-! # The nodes of a search

The nodes are a tree below the start: each is a step away from its parent, to a square
that the creature can walk to, and costs at least as much more as the step. What
a visit of the neighbours does to the pool is said once, by `visit_rule`. -/
namespace ForgottenServer.Maps
open AStarNodes PathQuery

variable {q : PathQuery} {ns : List AStarNode} {n c : AStarNode} {k i : ℕ}

/-! ## Steps -/

/-- A step that does not pass the edge of the map. -/
def Steps (p : Position) (d : ℤ × ℤ) (r : Position) : Prop :=
  (r.x.toNat : ℤ) = p.x.toNat + d.1 ∧ (r.y.toNat : ℤ) = p.y.toNat + d.2 ∧ r.z = p.z

/-- The search takes the square, if it comes to it. -/
def PathQuery.takes (q : PathQuery) (pos : Position) : Bool := !q.isOutside pos && q.canWalkTo pos

/-- The cost of a neighbour by way of a node. -/
def PathQuery.newf (q : PathQuery) (n : AStarNode) (d : ℤ × ℤ) : ℕ :=
  n.f + getMapWalkCost n (neighbor (q.square n) d) + q.getTileWalkCost (neighbor (q.square n) d)

/-- A way to a node that is found to be cheaper. -/
def AStarNode.reparented (k f : ℕ) (c : AStarNode) : AStarNode := { c with parent := some k, f, isOpen := true }

theorem square_inj {n c : AStarNode} (h : q.square n = q.square c) : n.x = c.x ∧ n.y = c.y := by
  simpa [PathQuery.square] using h

section Steps

theorem ofInt_toNat (x : UInt16) : UInt16.ofInt x.toNat = x := by
  have hlt := x.toNat_lt
  have hmod : ((x.toNat : ℤ) % 2 ^ 16).toNat = x.toNat := by omega
  rw [UInt16.ofInt, hmod, UInt16.ofNat_toNat]

theorem Steps.eq_neighbor {p r : Position} {d : ℤ × ℤ} (h : Steps p d r) : neighbor p d = r := by
  obtain ⟨hx, hy, hz⟩ := h
  rw [neighbor, ← hx, ← hy, ofInt_toNat, ofInt_toNat, ← hz]

end Steps

/-! ## The best node -/

section Best

/-- What is known of the nodes up to a place: the best open one is the cheapest. -/
def BestOf (pre : List AStarNode) : Option (ℕ × ℕ) → Prop
  | none => ∀ c ∈ pre, c.isOpen = true → 0x7FFFFFFF ≤ c.f
  | some (k, f) => (∃ n, pre[k]? = some n ∧ n.isOpen = true ∧ n.f = f) ∧ ∀ c ∈ pre, c.isOpen = true → f ≤ c.f

theorem BestOf.snoc {pre : List AStarNode} {best : Option (ℕ × ℕ)} (h : BestOf pre best) (n : AStarNode) :
    BestOf (pre ++ [n]) (if n.isOpen && n.f < (best.map (·.2)).getD 0x7FFFFFFF then some (pre.length, n.f)
        else best) := by
  split
  · rename_i hbetter
    obtain ⟨hopen, hlt⟩ : n.isOpen = true ∧ n.f < (best.map (·.2)).getD 0x7FFFFFFF := by
      simpa using hbetter
    refine ⟨⟨n, by simp, hopen, rfl⟩, fun c hc hcopen => ?_⟩
    rcases List.mem_append.mp hc with hc | hc
    · cases best with
      | none =>
        have hle := h c hc hcopen
        simp only [Option.map_none, Option.getD_none] at hlt
        omega
      | some b =>
        have hle := h.2 c hc hcopen
        simp only [Option.map_some, Option.getD_some] at hlt
        omega
    · rw [List.mem_singleton.mp hc]
  · rename_i hworse
    have hle : n.isOpen = true → (best.map (·.2)).getD 0x7FFFFFFF ≤ n.f := by
      intro hopen
      simpa [hopen] using hworse
    cases best with
    | none =>
      intro c hc hcopen
      rcases List.mem_append.mp hc with hc | hc
      · exact h c hc hcopen
      · obtain rfl := List.mem_singleton.mp hc
        exact hle hcopen
    | some b =>
      obtain ⟨⟨m, hm, hmopen, hmf⟩, hleast⟩ := h
      refine ⟨⟨m, ?_, hmopen, hmf⟩, fun c hc hcopen => ?_⟩
      · rw [List.getElem?_append_left (List.getElem?_eq_some_iff.mp hm).1, hm]
      · rcases List.mem_append.mp hc with hc | hc
        · exact hleast c hc hcopen
        · obtain rfl := List.mem_singleton.mp hc
          exact hle hcopen

theorem bestFrom_spec {pre : List AStarNode} {best : Option (ℕ × ℕ)} (hpre : BestOf pre best) :
    BestOf (pre ++ ns) (bestFrom best pre.length ns) := by
  induction ns generalizing pre best with
  | nil => rwa [List.append_nil, bestFrom]
  | cons n ns ih =>
    have hnext := ih (hpre.snoc n)
    rwa [List.length_append, List.length_singleton, List.append_assoc, List.singleton_append] at hnext

theorem getBestNode_spec {pool : AStarNodes} (h : pool.getBestNode = some k) :
    ∃ n, pool.nodes[k]? = some n ∧ n.isOpen = true ∧ ∀ c ∈ pool.nodes, c.isOpen = true → n.f ≤ c.f := by
  obtain ⟨⟨k', f⟩, hbest, rfl⟩ := Option.map_eq_some_iff.mp h
  have hspec : BestOf ([] ++ pool.nodes) (bestFrom none 0 pool.nodes) :=
    bestFrom_spec fun _ hc => by cases hc
  rw [hbest] at hspec
  obtain ⟨⟨n, hn, hopen, rfl⟩, hleast⟩ := hspec
  exact ⟨n, hn, hopen, hleast⟩

end Best

/-! ## Visits -/

section Visits

theorem getNodeByPosition_spec {pool : AStarNodes} (pos : Position) (hz : pos.z = q.startPos.z)
    (h : pool.getNodeByPosition pos.x pos.y = some i) : ∃ c, pool.nodes[i]? = some c ∧ q.square c = pos := by
  obtain ⟨hi, hc, -⟩ := List.findIdx?_eq_some_iff_getElem.mp h
  refine ⟨pool.nodes[i], List.getElem?_eq_getElem hi, ?_⟩
  have hxy : pool.nodes[i].x = pos.x ∧ pool.nodes[i].y = pos.y := by simpa using hc
  rw [PathQuery.square, hxy.1, hxy.2, ← hz]

theorem getNodeByPosition_none {pool : AStarNodes} {pos : Position} (h : pool.getNodeByPosition pos.x pos.y = none) :
    ∀ c ∈ pool.nodes, q.square c ≠ pos := by
  intro c hc hpos
  have hno := List.findIdx?_eq_none_iff.mp h c hc
  rw [← hpos] at hno
  simp [PathQuery.square] at hno

/-- What the visit of one neighbour can do to the pool, and so what a visit of them keeps. -/
theorem visit_rule {P : List AStarNode → Prop} {found : Bool} {ds : List (ℤ × ℤ)}
    (hreparent : ∀ ns i c d, P ns → d ∈ ds → ns[i]? = some c →
      q.square c = neighbor (q.square n) d → q.newf n d < c.f →
      P (ns.modify i (·.reparented k (q.newf n d))))
    (hcreate : ∀ ns d, P ns → d ∈ ds → ns.length < maxNodes → (∀ c ∈ ns, q.square c ≠ neighbor (q.square n) d) →
      q.takes (neighbor (q.square n) d) = true →
      P (ns ++
        [{ parent := some k, f := q.newf n d, x := (neighbor (q.square n) d).x, y := (neighbor (q.square n) d).y }]))
    {pool pool' : AStarNodes} (hpool : P pool.nodes) (h : q.visit found k n pool ds = some pool') :
      P pool'.nodes := by
  induction ds generalizing pool with
  | nil =>
    obtain rfl := Option.some.inj h
    exact hpool
  | cons d ds ih =>
    have hrest := @ih (fun ns i c d' hns hd => hreparent ns i c d' hns (List.mem_cons_of_mem d hd))
      (fun ns d' hns hd => hcreate ns d' hns (List.mem_cons_of_mem d hd))
    unfold PathQuery.visit at h
    dsimp only at h
    split at h
    · exact hrest hpool h
    · rename_i hinside
      split at h
      · rename_i i hi
        obtain ⟨c, hc, hsquare⟩ := getNodeByPosition_spec (q := q) (neighbor (q.square n) d) rfl hi
        split at h
        · exact hrest hpool h
        · rename_i hcheaper
          refine hrest (hreparent _ i c d hpool List.mem_cons_self hc hsquare ?_) h
          simpa [hc, newf] using hcheaper
      · rename_i hnone
        split at h
        · rename_i hwalk
          split at h
          · rename_i pool'' hcreated
            refine hrest ?_ h
            unfold createOpenNode at hcreated
            split at hcreated
            · cases hcreated
            · rename_i hroom
              obtain rfl := Option.some.inj hcreated
              refine hcreate _ d hpool List.mem_cons_self (Nat.lt_of_not_le hroom) (getNodeByPosition_none hnone) ?_
              rw [takes, hwalk, Bool.and_true]
              simpa using hinside
          · split at h
            · obtain rfl := Option.some.inj h
              exact hpool
            · cases h
        · exact hrest hpool h

end Visits

/-! ## The tree -/

/-- The squares that are taken from a node lie beside it: none is across the edge of the map. -/
def PathQuery.Inside (q : PathQuery) (n : AStarNode) (ds : List (ℤ × ℤ)) : Prop :=
  ∀ d ∈ ds, q.takes (neighbor (q.square n) d) = true → Steps (q.square n) d (neighbor (q.square n) d)

/-- A node has been reached from another one. -/
structure Child (q : PathQuery) (p c : AStarNode) : Prop where
  step : ∃ d ∈ allNeighbors, Steps (q.square p) d (q.square c) ∧
    (q.fpp.allowDiagonal = false → p.parent.isSome = true → d.1 = 0 ∨ d.2 = 0)
  takes : q.takes (q.square c) = true
  cost : p.f + getMapWalkCost p (q.square c) + q.getTileWalkCost (q.square c) ≤ c.f

structure Tree (q : PathQuery) (ns : List AStarNode) : Prop where
  start : ∃ b, ns[0]? = some { parent := none, f := 0, x := q.startPos.x, y := q.startPos.y, isOpen := b }
  child : ∀ i c, ns[i]? = some c → i ≠ 0 → ∃ j p, c.parent = some j ∧ ns[j]? = some p ∧ Child q p c
  unique : (ns.map q.square).Nodup

section Tree

theorem parentDirection_straight (x y : ℤ) : (parentDirection false x y).isDiagonal = false := by
  unfold parentDirection
  split
  · split <;> rfl
  · rw [if_pos (by simp)]
    split <;> rfl

theorem mem_neighbors {allowDiagonal : Bool} {parent : Option AStarNode} {d : ℤ × ℤ}
    (h : d ∈ neighbors allowDiagonal parent n) :
    d ∈ allNeighbors ∧ (allowDiagonal = false → parent.isSome = true → d.1 = 0 ∨ d.2 = 0) := by
  have hall : ∀ dir, ∀ d ∈ dirNeighbors dir, d ∈ allNeighbors := by
    intro dir
    cases dir <;> decide
  have hstraight : ∀ dir, dir.isDiagonal = false → ∀ d ∈ (dirNeighbors dir).take 3, d.1 = 0 ∨ d.2 = 0 := by
    intro dir
    cases dir <;> decide
  cases parent with
  | none => exact ⟨h, fun _ hparent => by cases hparent⟩
  | some parent =>
    refine ⟨hall _ d (List.mem_of_mem_take h), fun hallow _ => ?_⟩
    subst hallow
    exact hstraight _ (parentDirection_straight _ _) d h

theorem getElem?_modify_cases {f : AStarNode → AStarNode} {j : ℕ} (h : (ns.modify i f)[j]? = some c) :
    (j = i ∧ ∃ c', ns[i]? = some c' ∧ c = f c') ∨ (j ≠ i ∧ ns[j]? = some c) := by
  by_cases hj : j = i
  · subst hj
    rw [List.getElem?_modify_eq] at h
    obtain ⟨c', hc', rfl⟩ := Option.map_eq_some_iff.mp h
    exact .inl ⟨rfl, c', hc', rfl⟩
  · rw [List.getElem?_modify_ne f _ (Ne.symm hj)] at h
    exact .inr ⟨hj, h⟩

theorem map_square_modify (ns : List AStarNode) (i : ℕ) {f : AStarNode → AStarNode}
    (hf : ∀ c, q.square (f c) = q.square c) : (ns.modify i f).map q.square = ns.map q.square := by
  refine List.ext_getElem? fun j => ?_
  rw [List.getElem?_map, List.getElem?_map, List.getElem?_modify, Option.map_eq_map, Option.map_map]
  refine Option.map_congr fun c _ => ?_
  rw [Function.comp_apply]
  split
  · exact hf c
  · rfl

theorem getElem?_snoc_cases {c' : AStarNode} {j : ℕ} (h : (ns ++ [c'])[j]? = some c) :
    ns[j]? = some c ∨ (j = ns.length ∧ c = c') := by
  rw [List.getElem?_append] at h
  split at h
  · exact .inl h
  · have hj : j - ns.length = 0 := by
      have hlt := (List.getElem?_eq_some_iff.mp h).1
      rw [List.length_singleton] at hlt
      omega
    rw [hj, List.getElem?_cons_zero, Option.some.injEq] at h
    exact .inr ⟨by omega, h.symm⟩

theorem normal_le_getMapWalkCost (n : AStarNode) (pos : Position) : 10 ≤ getMapWalkCost n pos := by
  unfold getMapWalkCost
  split <;> decide

theorem Tree.eq_of_square {c' : AStarNode} {j : ℕ} (h : Tree q ns) (hi : ns[i]? = some c)
    (hj : ns[j]? = some c') (hsquare : q.square c = q.square c') : i = j := by
  have hlength : i < (ns.map q.square).length := by
    rw [List.length_map]
    exact (List.getElem?_eq_some_iff.mp hi).1
  refine (List.getElem?_inj hlength h.unique).mp ?_
  rw [List.getElem?_map, List.getElem?_map, hi, hj, Option.map_some, Option.map_some, hsquare]

theorem Tree.eq_start (h : Tree q ns) (hc : ns[i]? = some c) (hstart : c.parent = none ∨ c.f = 0) :
    i = 0 ∧ q.square c = q.startPos ∧ c.f = 0 ∧ c.parent = none := by
  by_cases hi : i = 0
  · obtain ⟨b, hb⟩ := h.start
    rw [hi, hb] at hc
    obtain rfl := Option.some.inj hc
    exact ⟨hi, rfl, rfl, rfl⟩
  · obtain ⟨j, p, hparent, -, hchild⟩ := h.child i c hc hi
    rcases hstart with hnone | hf
    · rw [hparent] at hnone
      cases hnone
    · have hcost := hchild.cost
      have hstep := normal_le_getMapWalkCost p (q.square c)
      omega

theorem child_of_visit {d : ℤ × ℤ} (hd : d ∈ allNeighbors)
    (hinside : q.takes (neighbor (q.square n) d) = true → Steps (q.square n) d (neighbor (q.square n) d))
    (hstraight : q.fpp.allowDiagonal = false → n.parent.isSome = true → d.1 = 0 ∨ d.2 = 0)
    (htakes : q.takes (neighbor (q.square n) d) = true)
    (hsquare : q.square c = neighbor (q.square n) d) (hf : q.newf n d ≤ c.f) : Child q n c where
  step := ⟨d, hd, hsquare ▸ hinside htakes, hstraight⟩
  takes := hsquare ▸ htakes
  cost := by rwa [hsquare]

theorem Child.of_cheaper {p p' : AStarNode} (h : Child q p c) (hsquare : q.square p' = q.square p)
    (hf : p'.f ≤ p.f) (hparent : p.parent.isSome = true) : Child q p' c where
  step := by
    obtain ⟨d, hd, hstep, hstraight⟩ := h.step
    exact ⟨d, hd, hsquare ▸ hstep, fun hallow _ => hstraight hallow hparent⟩
  takes := h.takes
  cost := by
    have hcost := h.cost
    have hsame : getMapWalkCost p' (q.square c) = getMapWalkCost p (q.square c) := by
      rw [getMapWalkCost, getMapWalkCost, (square_inj hsquare).1, (square_inj hsquare).2]
    omega

theorem Tree.reparent {d : ℤ × ℤ} (h : Tree q ns) (hn : ns[k]? = some n) (hd : d ∈ allNeighbors)
    (hinside : q.takes (neighbor (q.square n) d) = true → Steps (q.square n) d (neighbor (q.square n) d))
    (hstraight : q.fpp.allowDiagonal = false → n.parent.isSome = true → d.1 = 0 ∨ d.2 = 0) (hc : ns[i]? = some c)
    (hsquare : q.square c = neighbor (q.square n) d) (hf : q.newf n d < c.f) :
    Tree q (ns.modify i (·.reparented k (q.newf n d))) ∧ (ns.modify i (·.reparented k (q.newf n d)))[k]? = some n := by
  have hi : i ≠ 0 := by
    rintro rfl
    obtain ⟨b, hb⟩ := h.start
    rw [hb] at hc
    obtain rfl := Option.some.inj hc
    cases hf
  obtain ⟨j, p, hparent, hp, hchild⟩ := h.child i c hc hi
  have hnew : Child q n (c.reparented k (q.newf n d)) :=
    child_of_visit hd hinside hstraight (hsquare ▸ hchild.takes) hsquare (le_refl _)
  have hki : k ≠ i := by
    rintro rfl
    rw [hn] at hc
    obtain rfl := Option.some.inj hc
    have hcost := hnew.cost
    have hle : n.f ≤ q.newf n d := by
      unfold PathQuery.newf
      omega
    omega
  have hkept : (ns.modify i (·.reparented k (q.newf n d)))[k]? = some n := by
    rw [List.getElem?_modify_ne _ _ (Ne.symm hki), hn]
  refine ⟨⟨?_, fun m c' hc' hm => ?_, ?_⟩, hkept⟩
  · obtain ⟨b, hb⟩ := h.start
    exact ⟨b, by rw [List.getElem?_modify_ne _ _ hi, hb]⟩
  · rcases getElem?_modify_cases hc' with ⟨rfl, c'', hc'', rfl⟩ | ⟨hne, hc'⟩
    · rw [hc] at hc''
      obtain rfl := Option.some.inj hc''
      exact ⟨k, n, rfl, hkept, hnew⟩
    · obtain ⟨j', p', hparent', hp', hchild'⟩ := h.child m c' hc' hm
      by_cases hji : j' = i
      · subst hji
        rw [hc] at hp'
        obtain rfl := Option.some.inj hp'
        refine ⟨j', c.reparented k (q.newf n d), hparent', by rw [List.getElem?_modify_eq, hc]; rfl, ?_⟩
        exact hchild'.of_cheaper rfl (le_of_lt hf) (by rw [hparent]; rfl)
      · exact ⟨j', p', hparent', by rw [List.getElem?_modify_ne _ _ (Ne.symm hji), hp'], hchild'⟩
  · have hsquares := map_square_modify (q := q) ns i (f := (·.reparented k (q.newf n d))) fun _ => rfl
    rw [hsquares]
    exact h.unique

theorem Tree.create {d : ℤ × ℤ} (h : Tree q ns) (hn : ns[k]? = some n) (hd : d ∈ allNeighbors)
    (hinside : q.takes (neighbor (q.square n) d) = true → Steps (q.square n) d (neighbor (q.square n) d))
    (hstraight : q.fpp.allowDiagonal = false → n.parent.isSome = true → d.1 = 0 ∨ d.2 = 0)
    (hfresh : ∀ c ∈ ns, q.square c ≠ neighbor (q.square n) d) (htakes : q.takes (neighbor (q.square n) d) = true)
    (hc : c.parent = some k) (hsquare : q.square c = neighbor (q.square n) d) (hf : q.newf n d ≤ c.f) :
    Tree q (ns ++ [c]) ∧ (ns ++ [c])[k]? = some n := by
  have hold : ∀ {j p}, ns[j]? = some p → (ns ++ [c])[j]? = some p := fun hp => by
    rw [List.getElem?_append_left (List.getElem?_eq_some_iff.mp hp).1, hp]
  refine ⟨⟨?_, fun m c' hc' hm => ?_, ?_⟩, hold hn⟩
  · obtain ⟨b, hb⟩ := h.start
    exact ⟨b, hold hb⟩
  · rcases getElem?_snoc_cases hc' with hc' | ⟨-, rfl⟩
    · obtain ⟨j, p, hparent, hp, hchild⟩ := h.child m c' hc' hm
      exact ⟨j, p, hparent, hold hp, hchild⟩
    · exact ⟨k, n, hc, hold hn, child_of_visit hd hinside hstraight htakes hsquare hf⟩
  · rw [List.map_append, List.map_singleton, List.nodup_append]
    refine ⟨h.unique, by simp, fun a ha b hb hab => ?_⟩
    obtain ⟨c', hc', rfl⟩ := List.mem_map.mp ha
    rw [List.mem_singleton] at hb
    exact hfresh c' hc' (hab.trans (hb.trans hsquare))

/-- The pool with the node at `k` closed. -/
abbrev closeAt (ns : List AStarNode) (k : ℕ) : List AStarNode := ns.modify k fun n => { n with isOpen := false }

theorem getElem?_closeAt (h : ns[i]? = some c) (k : ℕ) :
    ∃ b, (closeAt ns k)[i]? = some { c with isOpen := b } ∧ (c.isOpen = true → i ≠ k → b = true) := by
  by_cases hik : i = k
  · exact ⟨false, by rw [hik, List.getElem?_modify_eq, ← hik, h]; rfl, fun _ hne => absurd hik hne⟩
  · exact ⟨c.isOpen, by rw [List.getElem?_modify_ne _ _ (Ne.symm hik), h], fun hopen _ => hopen⟩

theorem getElem?_closeAt_cases (h : (closeAt ns k)[i]? = some c) :
    ∃ c' b, ns[i]? = some c' ∧ c = { c' with isOpen := b } ∧ (b = true → c'.isOpen = true ∧ i ≠ k) := by
  rcases getElem?_modify_cases h with ⟨rfl, c', hc', rfl⟩ | ⟨hik, hc⟩
  · exact ⟨c', false, hc', rfl, fun hb => by cases hb⟩
  · exact ⟨c, c.isOpen, hc, rfl, fun hopen => ⟨hopen, hik⟩⟩

theorem Tree.close (h : Tree q ns) (k : ℕ) : Tree q (closeAt ns k) := by
  refine ⟨?_, fun m c hc hm => ?_, ?_⟩
  · obtain ⟨b, hb⟩ := h.start
    obtain ⟨b', hb', -⟩ := getElem?_closeAt hb k
    exact ⟨b', hb'⟩
  · obtain ⟨c', b, hc', rfl, -⟩ := getElem?_closeAt_cases hc
    obtain ⟨j, p, hparent, hp, hchild⟩ := h.child m c' hc' hm
    obtain ⟨b', hb', -⟩ := getElem?_closeAt hp k
    exact ⟨j, _, hparent, hb', hchild.step, hchild.takes, hchild.cost⟩
  · have hsquares := map_square_modify (q := q) ns k (f := fun n => { n with isOpen := false }) fun _ => rfl
    rw [closeAt, hsquares]
    exact h.unique

theorem tree_startPool : Tree q q.startPool.nodes where
  start := ⟨true, rfl⟩
  child i c hc hi := by
    have hlt := (List.getElem?_eq_some_iff.mp hc).1
    rw [startPool, List.length_singleton] at hlt
    omega
  unique := by simp [startPool]

/-- What a visit keeps, where it is about nodes of a tree: a node that has become cheaper is
neither the start nor the one that is expanded. -/
theorem visit_tree_rule {P : List AStarNode → Prop} {found : Bool} {pool pool' : AStarNodes}
    (h : Tree q pool.nodes) (hn : pool.nodes[k]? = some n)
    (hinside : q.Inside n (neighbors q.fpp.allowDiagonal (n.parent.bind (pool.nodes[·]?)) n))
    (hreparent : ∀ ns i c f, Tree q ns → ns[k]? = some n → P ns → ns[i]? = some c → i ≠ 0 → i ≠ k →
      n.f + 10 ≤ f → f < c.f →
      P (ns.modify i (·.reparented k f)))
    (hcreate : ∀ ns c, Tree q ns → ns[k]? = some n → P ns → c.parent = some k → c.isOpen = true → n.f + 10 ≤ c.f →
      P (ns ++ [c]))
    (hP : P pool.nodes) (hvisit : q.visit found k n pool
      (neighbors q.fpp.allowDiagonal (n.parent.bind (pool.nodes[·]?)) n) = some pool') :
    Tree q pool'.nodes ∧ pool'.nodes[k]? = some n ∧ P pool'.nodes := by
  have hds : ∀ d ∈ neighbors q.fpp.allowDiagonal (n.parent.bind (pool.nodes[·]?)) n, d ∈ allNeighbors ∧
      (q.fpp.allowDiagonal = false → n.parent.isSome = true → d.1 = 0 ∨ d.2 = 0) := by
    intro d hd
    obtain ⟨hall, hstraight⟩ := mem_neighbors hd
    refine ⟨hall, fun hallow hparent => hstraight hallow ?_⟩
    have hk : k ≠ 0 := by
      rintro rfl
      obtain ⟨b, hb⟩ := h.start
      rw [hn] at hb
      obtain rfl := Option.some.inj hb
      cases hparent
    obtain ⟨j, p, hj, hp, -⟩ := h.child k n hn hk
    rw [hj, Option.bind_some, hp, Option.isSome_some]
  have hnewf : ∀ d, n.f + 10 ≤ q.newf n d := by
    intro d
    have hstep := normal_le_getMapWalkCost n (neighbor (q.square n) d)
    unfold PathQuery.newf
    omega
  refine visit_rule (P := fun ns => Tree q ns ∧ ns[k]? = some n ∧ P ns) ?_ ?_ ⟨h, hn, hP⟩ hvisit
  · rintro ns i c d ⟨htree, hn, hP⟩ hd hc hsquare hf
    obtain ⟨htree', hn'⟩ := htree.reparent hn (hds d hd).1 (hinside d hd) (hds d hd).2 hc hsquare hf
    refine ⟨htree', hn', hreparent ns i c _ htree hn hP hc ?_ ?_ (hnewf d) hf⟩
    · rintro rfl
      obtain ⟨b, hb⟩ := htree.start
      rw [hb] at hc
      obtain rfl := Option.some.inj hc
      cases hf
    · rintro rfl
      rw [hn] at hc
      obtain rfl := Option.some.inj hc
      have hle := hnewf d
      omega
  · rintro ns d ⟨htree, hn, hP⟩ hd - hfresh htakes
    obtain ⟨htree', hn'⟩ := htree.create
      (c := { parent := some k, f := q.newf n d, x := (neighbor (q.square n) d).x, y := (neighbor (q.square n) d).y })
      hn (hds d hd).1 (hinside d hd) (hds d hd).2 hfresh htakes rfl rfl (le_refl _)
    exact ⟨htree', hn', hcreate ns _ htree hn hP rfl rfl (hnewf d)⟩

end Tree

/-! ## The way back -/

/-- Two squares of one floor that touch. -/
def Adjacent (p r : Position) : Prop :=
  p ≠ r ∧ p.z = r.z ∧ |(p.x.toNat : ℤ) - r.x.toNat| ≤ 1 ∧ |(p.y.toNat : ℤ) - r.y.toNat| ≤ 1

/-- The directions lead from the start to a square: over squares that the creature can walk to,
from each to one beside it, and straight on if it must be. -/
structure Leads (q : PathQuery) (dirList : List Direction) (pos : Position) : Prop where
  walkable : ∀ r ∈ follow q.startPos dirList.reverse, q.canWalkTo r = true
  adjacent : List.IsChain Adjacent (q.startPos :: follow q.startPos dirList.reverse)
  ends : (q.startPos :: follow q.startPos dirList.reverse).getLast? = some pos
  straight : q.fpp.allowDiagonal = false → ∀ dir ∈ dirList, dir.isDiagonal = false

/-- A node that has been reached from the start by a diagonal step. -/
def IsCorner (q : PathQuery) (c : AStarNode) : Prop :=
  c.parent = some 0 ∧ c.x ≠ q.startPos.x ∧ c.y ≠ q.startPos.y

/-- Where a direction leads. -/
def Direction.offset : Direction → ℤ × ℤ
  | .north => (0, -1)
  | .east => (1, 0)
  | .south => (0, 1)
  | .west => (-1, 0)
  | .southwest => (-1, 1)
  | .southeast => (1, 1)
  | .northwest => (-1, -1)
  | .northeast => (1, -1)

section WayBack

theorem getNextPosition_eq (dir : Direction) (p : Position) : getNextPosition dir p = neighbor p dir.offset := by
  cases dir <;>
    simp only [getNextPosition, neighbor, Direction.offset, UInt16.ofInt_add, ofInt_toNat,
      UInt16.ofInt_one, UInt16.ofInt_neg_one, add_zero, UInt16.sub_eq_add_neg]

theorem stepDirection_offset : ∀ d ∈ allNeighbors, ∃ dir, stepDirection (-d.1) (-d.2) = some dir ∧
    dir.offset = d ∧ (d.1 = 0 ∨ d.2 = 0 → dir.isDiagonal = false) := by
  simp only [allNeighbors, List.forall_mem_cons]
  exact ⟨⟨.west, by decide⟩, ⟨.south, by decide⟩, ⟨.east, by decide⟩, ⟨.north, by decide⟩,
    ⟨.northwest, by decide⟩,
    ⟨.northeast, by decide⟩, ⟨.southeast, by decide⟩, ⟨.southwest, by decide⟩,
    fun _ h => by cases h⟩

theorem Steps.adjacent {p r : Position} {d : ℤ × ℤ} (hd : d ∈ allNeighbors) (h : Steps p d r) : Adjacent p r := by
  have hsmall : ∀ d ∈ allNeighbors, d ≠ (0, 0) ∧ |d.1| ≤ 1 ∧ |d.2| ≤ 1 := by decide
  obtain ⟨hne, hx, hy⟩ := hsmall d hd
  obtain ⟨hstepx, hstepy, hz⟩ := h
  refine ⟨?_, hz.symm, ?_, ?_⟩
  · rintro rfl
    exact hne (Prod.ext (by dsimp only; omega) (by dsimp only; omega))
  · rw [hstepx, abs_sub_comm, add_sub_cancel_left]
    exact hx
  · rw [hstepy, abs_sub_comm, add_sub_cancel_left]
    exact hy

theorem follow_snoc {p r : Position} (dir : Direction) {ds : List Direction}
    (h : (p :: follow p ds).getLast? = some r) : follow p (ds ++ [dir]) = follow p ds ++ [getNextPosition dir r] := by
  induction ds generalizing p with
  | nil =>
    obtain rfl : p = r := by simpa [follow] using h
    rfl
  | cons d ds ih =>
    rw [follow, List.getLast?_cons_cons] at h
    rw [List.cons_append, follow, ih h, follow, List.cons_append]

theorem leads_nil (q : PathQuery) : Leads q [] q.startPos where
  walkable _ h := by cases h
  adjacent := by simp [follow]
  ends := rfl
  straight _ _ h := by cases h

theorem Leads.step {dirList : List Direction} {p r : Position} {dir : Direction} (h : Leads q dirList p)
    (hnext : getNextPosition dir p = r) (hwalk : q.canWalkTo r = true) (hadjacent : Adjacent p r)
    (hstraight : q.fpp.allowDiagonal = false → dir.isDiagonal = false) : Leads q (dir :: dirList) r := by
  have hfollow : follow q.startPos (dir :: dirList).reverse = follow q.startPos dirList.reverse ++ [r] := by
    rw [List.reverse_cons, follow_snoc dir h.ends, hnext]
  refine ⟨?_, ?_, ?_, ?_⟩
  · intro r' hr'
    rw [hfollow] at hr'
    rcases List.mem_append.mp hr' with hr' | hr'
    · exact h.walkable r' hr'
    · rwa [List.mem_singleton.mp hr']
  · rw [hfollow, ← List.cons_append]
    refine List.isChain_append.mpr ⟨h.adjacent, List.isChain_singleton r, fun p' hp' r' hr' => ?_⟩
    rw [h.ends, Option.mem_some_iff] at hp'
    rw [List.head?_singleton, Option.mem_some_iff] at hr'
    rwa [← hp', ← hr']
  · rw [hfollow, ← List.cons_append, List.getLast?_concat]
  · intro hallow dir' hdir'
    rcases List.mem_cons.mp hdir' with rfl | hdir'
    · exact hstraight hallow
    · exact h.straight hallow dir' hdir'

/-- What is read back from a node leads to it, if neither the node nor a parent is a corner
where there must be none. -/
theorem leads_readBack (h : Tree q ns)
    (hparents : q.fpp.allowDiagonal = false → ∀ c ∈ ns, ∀ j p, c.parent = some j → ns[j]? = some p → ¬ IsCorner q p)
    {fuel : ℕ} {dirList : List Direction} (hc : ns[i]? = some c)
    (hcorner : q.fpp.allowDiagonal = false → ¬ IsCorner q c)
    (hread : q.readBack ns fuel (q.square c) c.parent = some dirList) : Leads q dirList (q.square c) := by
  induction fuel generalizing i c dirList with
  | zero => cases hread
  | succ fuel ih =>
    by_cases hi : i = 0
    · obtain ⟨b, hb⟩ := h.start
      rw [hi, hb] at hc
      obtain rfl := Option.some.inj hc
      obtain rfl := Option.some.inj hread
      exact leads_nil q
    · obtain ⟨j, p, hparent, hp, hchild⟩ := h.child i c hc hi
      obtain ⟨d, hd, hstep, hstraight⟩ := hchild.step
      obtain ⟨dir, hdir, hoffset, hdirstraight⟩ := stepDirection_offset d hd
      rw [hparent, readBack, hp, Option.bind_some] at hread
      obtain ⟨rest, hrest, rfl⟩ := Option.map_eq_some_iff.mp hread
      have hread' : stepDirection (p.x.toNat - (q.square c).x.toNat)
          (p.y.toNat - (q.square c).y.toNat) = some dir := by
        have hx : (p.x.toNat : ℤ) - (q.square c).x.toNat = -d.1 := by
          have hstepx : ((q.square c).x.toNat : ℤ) = p.x.toNat + d.1 := hstep.1
          omega
        have hy : (p.y.toNat : ℤ) - (q.square c).y.toNat = -d.2 := by
          have hstepy : ((q.square c).y.toNat : ℤ) = p.y.toNat + d.2 := hstep.2.1
          omega
        rw [hx, hy, hdir]
      rw [hread']
      have hleads := ih hp (fun hallow =>
        hparents hallow c (List.mem_of_getElem? hc) j p hparent hp) hrest
      refine hleads.step ?_ ?_ (hstep.adjacent hd) fun hallow => hdirstraight ?_
      · rw [getNextPosition_eq, hoffset, hstep.eq_neighbor]
      · have htakes := hchild.takes
        rw [PathQuery.takes, Bool.and_eq_true] at htakes
        exact htakes.2
      · cases hpp : p.parent with
        | some j' => exact hstraight hallow (by rw [hpp]; rfl)
        | none =>
          -- a child of the start that is not a corner
          obtain ⟨hj, hsquare, -⟩ := h.eq_start hp (.inl hpp)
          by_contra hd'
          rw [not_or] at hd'
          refine hcorner hallow ⟨by rw [hparent, hj], fun hx => hd'.1 ?_, fun hy => hd'.2 ?_⟩
          · have hstepx := hstep.1
            rw [hsquare] at hstepx
            have hx' : (q.square c).x = q.startPos.x := hx
            rw [hx'] at hstepx
            omega
          · have hstepy := hstep.2.1
            rw [hsquare] at hstepy
            have hy' : (q.square c).y = q.startPos.y := hy
            rw [hy'] at hstepy
            omega

end WayBack
end ForgottenServer.Maps
