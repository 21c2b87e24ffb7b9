import ForgottenServer.Money.Carry

/-! # The room that the search sees

`Player::queryDestination` passes over the trade item and all that is in it;
`Player::queryMaxCount` does not. The room of the containers that are seen is what they can
use: where the search sees some, it finds a place for a stack of coins, and the place takes
away no more than one slot. -/
namespace ForgottenServer.Money.Carry
open ForgottenServer.Lib.Bags
open ForgottenServer.Things (Coin)

/-- A thing is seen, by someone who sees trade items or not. -/
def Thing.seen (trade : Bool) (x : Thing) : Bool := trade || !x.inTrade

/-- The things in the list itself that are seen. -/
def seenWidth (trade : Bool) : Bag Thing → ℕ
  | .nil => 0
  | .cons x _ rest => (if x.seen trade then 1 else 0) + seenWidth trade rest

/-- The room that a thing adds, for the number of things in it and the room in these. -/
def Thing.room (trade : Bool) (width inner : ℕ) (x : Thing) : ℕ :=
  match x with
  | .container capacity _ _ => if x.seen trade then (capacity - width) + inner else 0
  | _ => 0

/-- The empty slots in a list of things. -/
def roomIn (trade : Bool) : Bag Thing → ℕ
  | .nil => 0
  | .cons x inside rest => x.room trade (seenWidth trade inside) (roomIn trade inside) + roomIn trade rest

def nodeRoom (trade : Bool) (a : Node Thing) : ℕ := a.1.room trade (seenWidth trade a.2) (roomIn trade a.2)

/-- The empty slots of all containers that are seen. -/
def Player.room (p : Player) (trade : Bool) : ℕ := (p.slots.map fun a => a.elim 0 (nodeRoom trade)).sum

variable {rules : Rules} {p : Player} {coin : Coin} {count n j slot : ℕ} {path : List ℕ} {b : Bag Thing}
  {a y : Node Thing} {trade : Bool}

@[simp] theorem Thing.seen_true (x : Thing) : x.seen true = true := rfl

@[simp] theorem Thing.seen_grow (x : Thing) : (x.grow n).seen trade = x.seen trade := by cases x <;> rfl

@[simp] theorem Thing.seen_coins : (Thing.coins coin count false).seen trade = true := by simp [seen, inTrade]

theorem seenWidth_true (b : Bag Thing) : seenWidth true b = b.width := by
  induction b with
  | nil => rfl
  | cons x inside rest _ ih => simp [seenWidth, Bag.width, ih, Nat.add_comm]

theorem Thing.room_unseen {x : Thing} {width inner : ℕ} (h : x.seen trade = false) : x.room trade width inner = 0 := by
  cases x with
  | container => rw [room, h, if_neg Bool.false_ne_true]
  | coins | other => rfl

/-! ## Changes -/

theorem Thing.room_mono {x : Thing} {width width' inner inner' k : ℕ}
    (h : (∀ capacity : ℕ, (capacity - width) + inner ≤ (capacity - width') + inner' + k)) :
    x.room trade width inner ≤ x.room trade width' inner' + k := by
  cases x with
  | container capacity weight inTrade =>
    simp only [room]
    split
    · exact h capacity
    · exact Nat.zero_le _
  | coins | other => exact Nat.zero_le _

theorem seenWidth_modify (trade : Bool) {g : Node Thing → Node Thing} (hget : b.get? j = some a)
    (hseen : (g a).1.seen trade = a.1.seen trade) : seenWidth trade (b.modify g j) = seenWidth trade b := by
  induction b generalizing j with
  | nil => cases hget
  | cons x inside rest _ ih =>
    cases j with
    | zero =>
      obtain rfl := Option.some.inj hget
      simp only [Bag.modify, seenWidth, hseen]
    | succ j => simp only [Bag.modify, seenWidth, ih hget]

theorem roomIn_modify (trade : Bool) {g : Node Thing → Node Thing} (hget : b.get? j = some a) :
    roomIn trade (b.modify g j) + nodeRoom trade a = roomIn trade b + nodeRoom trade (g a) := by
  induction b generalizing j with
  | nil => cases hget
  | cons x inside rest _ ih =>
    cases j with
    | zero =>
      obtain rfl := Option.some.inj hget
      simp only [Bag.modify, roomIn, nodeRoom]
      omega
    | succ j =>
      have := ih hget
      simp only [Bag.modify, roomIn]
      omega

theorem nodeRoom_modifyAt {h : Bag Thing → Bag Thing} {k : ℕ} (hlocate : a.locate path = some y)
    (hle : nodeRoom trade y ≤ nodeRoom trade (y.1, h y.2) + k) :
    nodeRoom trade a ≤ nodeRoom trade (a.modifyAt h path) + k := by
  induction path generalizing a with
  | nil =>
    obtain rfl := Option.some.inj hlocate
    exact hle
  | cons j path ih =>
    obtain ⟨z, hz, hlocate⟩ := Option.bind_eq_some_iff.mp hlocate
    have hinner := ih hlocate
    have hmodify := roomIn_modify trade (g := Node.modifyAt h path) hz
    have hwidth := seenWidth_modify trade (g := Node.modifyAt h path) hz (by rw [modifyAt_fst])
    simp only [Node.modifyAt, nodeRoom, hwidth]
    exact Thing.room_mono fun capacity => by omega

/-- A container that the search sees. -/
def Thing.Open (x : Thing) : Prop := ∃ capacity weight, x = .container capacity weight false

/-- Where all containers on the way are seen, it is as much. -/
theorem nodeRoom_modifyAt_eq {h : Bag Thing → Bag Thing} (halong : a.Along Thing.Open path)
    (hlocate : a.locate path = some y) :
    nodeRoom false (a.modifyAt h path) + nodeRoom false y = nodeRoom false a + nodeRoom false (y.1, h y.2) := by
  induction path generalizing a with
  | nil =>
    obtain rfl := Option.some.inj hlocate
    exact Nat.add_comm _ _
  | cons j path ih =>
    obtain ⟨⟨capacity, weight, ha⟩, z, hz, halong⟩ := halong
    have hnext : z.locate path = some y := by simpa [Node.locate, hz] using hlocate
    have hinner := ih halong hnext
    have hmodify := roomIn_modify false (g := Node.modifyAt h path) hz
    have hwidth := seenWidth_modify false (g := Node.modifyAt h path) hz (by rw [modifyAt_fst])
    have hbefore : nodeRoom false a = (capacity - seenWidth false a.2) + roomIn false a.2 := by
      rw [nodeRoom, ha]
      rfl
    have hafter : nodeRoom false (a.modifyAt h (j :: path)) =
        (capacity - seenWidth false a.2) + roomIn false (a.2.modify (Node.modifyAt h path) j) := by
      rw [nodeRoom, modifyAt_fst, ha, ← hwidth]
      rfl
    omega

theorem nodeRoom_push (a : Node Thing) :
    nodeRoom trade a ≤ nodeRoom trade (a.1, .cons (.coins coin count false) .nil a.2) + 1 := by
  simp only [nodeRoom, roomIn, seenWidth, Thing.seen_coins, if_true]
  exact Thing.room_mono fun capacity => by omega

theorem nodeRoom_grow (a : Node Thing) : nodeRoom trade (a.1.grow n, a.2) = nodeRoom trade a := by
  obtain ⟨x, inside⟩ := a
  cases x <;> rfl

theorem nodeRoom_growAt (hget : y.2.get? j = some a) :
    nodeRoom trade (y.1, y.2.modify (fun a => (a.1.grow n, a.2)) j) = nodeRoom trade y := by
  have hmodify := roomIn_modify trade (g := fun a : Node Thing => (a.1.grow n, a.2)) hget
  rw [nodeRoom_grow] at hmodify
  have hsame : roomIn trade (y.2.modify (fun a => (a.1.grow n, a.2)) j) = roomIn trade y.2 := by omega
  have hwidth := seenWidth_modify trade (g := fun a : Node Thing => (a.1.grow n, a.2)) hget (Thing.seen_grow _)
  simp only [nodeRoom, hwidth, hsame]

/-! ## What the search finds -/

namespace Player

/-- There is such a place: an empty slot, room in a container, or so many coins of the kind. -/
def Fits (p : Player) (coin : Coin) : Place → Prop
  | .slot slot => p.slots[slot]? = some none
  | .slotStack slot toCount => ∃ t inside, p.slots[slot]? = some (some (.coins coin toCount t, inside)) ∧ toCount < 100
  | .inside slot path => ∃ a y capacity weight, p.slots[slot]? = some (some a) ∧ a.locate path = some y ∧
      a.Along Thing.Open path ∧ y.1 = .container capacity weight false ∧ seenWidth false y.2 < capacity
  | .stack slot path index toCount => ∃ a y t inside, p.slots[slot]? = some (some a) ∧
      a.locate path = some y ∧ y.2.get? index = some (.coins coin toCount t, inside) ∧ toCount < 100
  | .nowhere => True

def Visit.Valid (p : Player) (v : Visit) : Prop :=
  ∃ a weight, p.slots[v.slot]? = some (some a) ∧ a.Along Thing.Open v.path ∧
    a.locate v.path = some (.container v.capacity weight false, v.inside)

def Visit.room (v : Visit) : ℕ := (v.capacity - seenWidth false v.inside) + roomIn false v.inside

/-- What the visits of some containers see. -/
def queueRoom (queue : List Visit) : ℕ := (queue.map Visit.room).sum

/-- The things in some containers, and the containers. -/
def queueSize (queue : List Visit) : ℕ := (queue.map fun v => v.inside.size + 1).sum

@[simp] theorem queueRoom_nil : queueRoom [] = 0 := rfl
@[simp] theorem queueSize_nil : queueSize [] = 0 := rfl

@[simp] theorem queueRoom_cons (v : Visit) (queue : List Visit) :
    queueRoom (v :: queue) = v.room + queueRoom queue := by simp [queueRoom]

@[simp] theorem queueSize_cons (v : Visit) (queue : List Visit) :
    queueSize (v :: queue) = v.inside.size + 1 + queueSize queue := by simp [queueSize]

@[simp] theorem queueRoom_append (l l' : List Visit) : queueRoom (l ++ l') = queueRoom l + queueRoom l' := by
  simp [queueRoom]

@[simp] theorem queueSize_append (l l' : List Visit) : queueSize (l ++ l') = queueSize l + queueSize l' := by
  simp [queueSize]

theorem visits_room {x : Thing} (hx : x.inTrade = false) (inside : Bag Thing) :
    queueRoom (visits slot path x inside) = nodeRoom false (x, inside) := by
  cases x with
  | container capacity weight inTrade =>
    obtain rfl : inTrade = false := hx
    simp [visits, Visit.room, nodeRoom, Thing.room, Thing.seen, Thing.inTrade]
  | coins | other => rfl

theorem visits_size (slot : ℕ) (path : List ℕ) (x : Thing) (inside : Bag Thing) :
    queueSize (visits slot path x inside) ≤ inside.size + 1 := by
  cases x <;> simp [visits]

theorem mem_visits {x : Thing} {inside : Bag Thing} (hx : x.inTrade = false) {v : Visit}
    (hv : v ∈ visits slot path x inside) :
    v.slot = slot ∧ v.path = path ∧ v.inside = inside ∧ ∃ weight, x = .container v.capacity weight false := by
  cases x with
  | container capacity weight inTrade =>
    obtain rfl : inTrade = false := hx
    obtain rfl := List.mem_singleton.mp hv
    exact ⟨rfl, rfl, rfl, weight, rfl⟩
  | coins | other => cases hv

theorem stackCount?_eq_some {x : Thing} {toCount : ℕ} (h : stackCount? coin x = some toCount) :
    (∃ t, x = .coins coin toCount t) ∧ toCount < 100 := by
  cases x with
  | coins c m t =>
    simp only [stackCount?] at h
    split at h
    · rename_i hc
      obtain rfl := Option.some.inj h
      exact ⟨⟨t, by rw [hc.1]⟩, hc.2⟩
    · cases h
  | container | other => cases h

/-- A search in one list: a stack in it, or the containers of the list that can be seen. -/
def ItemsFound (coin : Coin) (slot : ℕ) (path : List ℕ) (b : Bag Thing) (index n : ℕ) (queue : List Visit) :
    Place ⊕ (ℕ × List Visit) → Prop
  | .inl place => ∃ j toCount t inside, place = .stack slot path (index + j) toCount ∧
      b.get? j = some (.coins coin toCount t, inside) ∧ toCount < 100
  | .inr (n', queue') => n' = n + seenWidth false b ∧ ∃ containers, queue' = queue ++ containers ∧
      queueRoom containers = roomIn false b ∧ queueSize containers ≤ b.size ∧
      ∀ v ∈ containers, v.slot = slot ∧ ∃ j weight, v.path = path ++ [index + j] ∧
        b.get? j = some (.container v.capacity weight false, v.inside)

theorem ItemsFound.skip {x : Thing} {inside rest : Bag Thing} {index n : ℕ} {queue : List Visit}
    {found : Place ⊕ (ℕ × List Visit)} (hx : x.inTrade = true)
    (h : ItemsFound coin slot path rest (index + 1) n queue found) :
    ItemsFound coin slot path (.cons x inside rest) index n queue found := by
  match found with
  | .inl place =>
    obtain ⟨j, toCount, t, inside, hplace, hget, hcount⟩ := h
    exact ⟨j + 1, toCount, t, inside, by rw [hplace]; congr 1; omega, hget, hcount⟩
  | .inr (n', queue') =>
    obtain ⟨hn, containers, hqueue, hroom, hsize, hmem⟩ := h
    refine ⟨?_, containers, hqueue, ?_, ?_, ?_⟩
    · simp only [seenWidth, Thing.seen, hx, Bool.not_true, Bool.or_false, Bool.false_eq_true, if_false]
      omega
    · rw [hroom, roomIn, Thing.room_unseen (by simp [Thing.seen, hx]), Nat.zero_add]
    · simp only [Bag.size]
      omega
    · intro v hv
      obtain ⟨hslot, j, weight, hpath, hget⟩ := hmem v hv
      exact ⟨hslot, j + 1, weight, by rw [hpath]; congr 2; omega, hget⟩

theorem ItemsFound.pass {x : Thing} {inside rest : Bag Thing} {index n : ℕ} {queue : List Visit}
    {found : Place ⊕ (ℕ × List Visit)} (hx : x.inTrade = false)
    (h : ItemsFound coin slot path rest (index + 1) (n + 1) (queue ++ visits slot (path ++ [index]) x inside) found) :
    ItemsFound coin slot path (.cons x inside rest) index n queue found := by
  match found with
  | .inl place =>
    obtain ⟨j, toCount, t, inside, hplace, hget, hcount⟩ := h
    exact ⟨j + 1, toCount, t, inside, by rw [hplace]; congr 1; omega, hget, hcount⟩
  | .inr (n', queue') =>
    obtain ⟨hn, containers, hqueue, hroom, hsize, hmem⟩ := h
    refine ⟨?_, visits slot (path ++ [index]) x inside ++ containers, by rw [hqueue, List.append_assoc], ?_, ?_, ?_⟩
    · simp only [seenWidth, Thing.seen, hx, Bool.not_false, Bool.or_true, if_true]
      omega
    · rw [queueRoom_append, visits_room hx, hroom, roomIn, nodeRoom]
    · have := visits_size slot (path ++ [index]) x inside
      simp only [queueSize_append, Bag.size]
      omega
    · intro v hv
      rcases List.mem_append.mp hv with hv | hv
      · obtain ⟨hslot, hpath, hinside, weight, hcontainer⟩ := mem_visits hx hv
        exact ⟨hslot, 0, weight, hpath, by rw [hinside, ← hcontainer]; rfl⟩
      · obtain ⟨hslot, j, weight, hpath, hget⟩ := hmem v hv
        exact ⟨hslot, j + 1, weight, by rw [hpath]; congr 2; omega, hget⟩

theorem searchItems_found (coin : Coin) (slot : ℕ) (path : List ℕ) (b : Bag Thing) (index n : ℕ) (queue : List Visit) :
    ItemsFound coin slot path b index n queue (searchItems coin slot path b index n queue) := by
  induction b generalizing index n queue with
  | nil => exact ⟨rfl, [], by simp, rfl, Nat.zero_le _, nofun⟩
  | cons x inside rest _ ih =>
    unfold searchItems
    split
    · rename_i htrade
      exact .skip htrade (ih (index + 1) n queue)
    · rename_i htrade
      have htrade := Bool.eq_false_iff.mpr htrade
      split
      · rename_i toCount hcount
        obtain ⟨⟨t, rfl⟩, hlt⟩ := stackCount?_eq_some hcount
        exact ⟨0, toCount, t, inside, rfl, rfl, hlt⟩
      · exact .pass htrade (ih (index + 1) (n + 1) _)

/-- The search of the containers finds a place that is there, and finds one if there is
room and the player can bear the coins. -/
theorem searchContainers_found (coin : Coin) (count fuel : ℕ) {queue : List Visit} (hfuel : queueSize queue ≤ fuel)
    (hvalid : ∀ v ∈ queue, v.Valid p) :
    p.Fits coin (p.searchContainers coin count fuel queue) ∧
      ((∃ slot path, p.searchContainers coin count fuel queue = .inside slot path) ∨
        (∃ slot path index toCount, p.searchContainers coin count fuel queue = .stack slot path index toCount) ∨
        p.searchContainers coin count fuel queue = .nowhere ∧ (p.hasCapacity count = true → queueRoom queue = 0)) := by
  induction fuel generalizing queue with
  | zero =>
    cases queue with
    | nil => exact ⟨trivial, .inr (.inr ⟨rfl, fun _ => rfl⟩)⟩
    | cons v queue =>
      simp only [queueSize_cons] at hfuel
      omega
  | succ fuel ih =>
    cases queue with
    | nil => exact ⟨trivial, .inr (.inr ⟨rfl, fun _ => rfl⟩)⟩
    | cons v queue =>
      obtain ⟨a, weight, hslot, halong, hlocate⟩ := hvalid v List.mem_cons_self
      have hfound := searchItems_found coin v.slot v.path v.inside 0 0 []
      unfold searchContainers
      generalize searchItems coin v.slot v.path v.inside 0 0 [] = found at hfound
      match found with
      | .inl place =>
        obtain ⟨j, toCount, t, inside, rfl, hget, hcount⟩ := hfound
        rw [Nat.zero_add]
        exact ⟨⟨a, _, t, inside, hslot, hlocate, hget, hcount⟩, .inr (.inl ⟨_, _, _, _, rfl⟩)⟩
      | .inr (n, containers) =>
        obtain ⟨hn, containers', hqueue, hroom, hsize, hmem⟩ := hfound
        simp only [List.nil_append] at hqueue
        subst hqueue
        dsimp only
        split
        · rename_i hspace
          rw [hn, Nat.zero_add] at hspace
          exact ⟨⟨a, _, v.capacity, weight, hslot, hlocate, halong, rfl, hspace.1⟩, .inl ⟨_, _, rfl⟩⟩
        · rename_i hfull
          have hfuel' : queueSize (queue ++ containers) ≤ fuel := by
            simp only [queueSize_cons, queueSize_append] at hfuel ⊢
            omega
          have hvalid' : ∀ v' ∈ queue ++ containers, v'.Valid p := by
            intro v' hv'
            rcases List.mem_append.mp hv' with hv' | hv'
            · exact hvalid v' (List.mem_cons_of_mem _ hv')
            · obtain ⟨hslot', j, weight', hpath, hget⟩ := hmem v' hv'
              rw [Nat.zero_add] at hpath
              refine ⟨a, weight', by rw [hslot', hslot], ?_, by rw [hpath, locate_append hlocate]; exact hget⟩
              rw [hpath]
              exact along_append halong hlocate hget ⟨_, weight', rfl⟩
          obtain ⟨hfits, hcases⟩ := ih hfuel' hvalid'
          refine ⟨hfits, hcases.imp_right (Or.imp_right ?_)⟩
          intro ⟨hnowhere, hnone⟩
          refine ⟨hnowhere, fun hcapacity => ?_⟩
          have hrest := hnone hcapacity
          have hfull' : v.capacity ≤ n := by
            by_contra hlt
            exact hfull ⟨not_le.mp hlt, hcapacity⟩
          simp only [queueRoom_append, queueRoom_cons, Visit.room] at hrest ⊢
          omega

theorem total_one (b : Bag Thing) : b.total (fun _ => 1) = b.size := by
  induction b with
  | nil => rfl
  | cons x inside rest ihinside ihrest =>
    simp only [Bag.total, Bag.size, ihinside, ihrest]
    omega

def Place.worn : Place → Bool
  | .slot _ | .slotStack _ _ => true
  | _ => false

/-- A search of slots: a place that takes the coins, or the containers that can be seen. -/
def SlotsFound (rules : Rules) (p : Player) (coin : Coin) (count : ℕ) (l : Slots) (queue : List Visit) :
    Place ⊕ List Visit → Prop
  | .inl place => p.Fits coin place ∧ p.placeQueryAdd rules coin count place = true ∧ place.worn = true
  | .inr queue' => ∃ containers, queue' = queue ++ containers ∧
      queueRoom containers = (l.map fun a => a.elim 0 (nodeRoom false)).sum ∧
      queueSize containers ≤ Slots.total (fun _ => 1) l ∧ ∀ v ∈ containers, v.Valid p

theorem SlotsFound.next {l : Slots} {o : Option (Node Thing)} {queue : List Visit} (containers : List Visit)
    {found : Place ⊕ List Visit} (hroom : queueRoom containers = o.elim 0 (nodeRoom false))
    (hsize : queueSize containers ≤ o.elim 0 (Node.total fun _ => 1)) (hvalid : ∀ v ∈ containers, v.Valid p)
    (h : SlotsFound rules p coin count l (queue ++ containers) found) :
    SlotsFound rules p coin count (o :: l) queue found := by
  match found with
  | .inl place => exact h
  | .inr queue' =>
    obtain ⟨containers', hqueue, hroom', hsize', hvalid'⟩ := h
    refine ⟨containers ++ containers', by rw [hqueue, List.append_assoc], ?_, ?_, ?_⟩
    · rw [queueRoom_append, hroom, hroom', List.map_cons, List.sum_cons]
    · simp only [queueSize_append, Slots.total, List.map_cons, List.sum_cons] at hsize' ⊢
      omega
    · intro v hv
      exact (List.mem_append.mp hv).elim (hvalid v) (hvalid' v)

theorem searchSlots_found (rules : Rules) (coin : Coin) (count : ℕ) {l : Slots} (slot : ℕ) (queue : List Visit)
    (hl : ∀ i : ℕ, p.slots[slot + i]? = l[i]?) :
    SlotsFound rules p coin count l queue (p.searchSlots rules coin count slot l queue) := by
  induction l generalizing slot queue with
  | nil => exact ⟨[], by simp, rfl, Nat.le_refl _, nofun⟩
  | cons o rest ih =>
    have hslot : p.slots[slot]? = some o := hl 0
    have hrest : ∀ i : ℕ, p.slots[slot + 1 + i]? = rest[i]? := by
      intro i
      rw [Nat.add_assoc, Nat.add_comm 1 i]
      exact hl (i + 1)
    match o with
    | none =>
      unfold searchSlots
      split
      · rename_i hadd
        exact ⟨hslot, hadd, rfl⟩
      · exact .next [] rfl (Nat.zero_le _) nofun (by rw [List.append_nil]; exact ih _ _ hrest)
    | some (x, inside) =>
      unfold searchSlots
      split
      · rename_i htrade
        exact .next [] (Thing.room_unseen (by simp [Thing.seen, htrade])).symm (Nat.zero_le _) nofun
          (by rw [List.append_nil]; exact ih _ _ hrest)
      · rename_i htrade
        have htrade := Bool.eq_false_iff.mpr htrade
        split
        · rename_i toCount hcount
          obtain ⟨hcount, hadd⟩ := Option.filter_eq_some_iff.mp hcount
          obtain ⟨⟨t, rfl⟩, hlt⟩ := stackCount?_eq_some hcount
          exact ⟨⟨t, inside, hslot, hlt⟩, hadd, rfl⟩
        · refine .next (visits slot [] x inside) (visits_room htrade inside) ?_ ?_ (ih _ _ hrest)
          · have := visits_size slot [] x inside
            simp only [Option.elim_some, Node.total, total_one]
            omega
          · intro v hv
            obtain ⟨hvslot, hpath, hinside, weight, hcontainer⟩ := mem_visits htrade hv
            subst hcontainer
            exact ⟨_, weight, by rw [hvslot]; exact hslot, by rw [hpath]; exact ⟨_, weight, rfl⟩,
              by rw [hpath, hinside]; rfl⟩

/-- What the search finds is there; it finds nothing only where the player cannot bear the coins
or no container that it sees has room. -/
theorem queryDestination_cases (rules : Rules) (p : Player) (coin : Coin) (count : ℕ) :
    p.Fits coin (p.queryDestination rules coin count) ∧
    ((p.queryDestination rules coin count).worn = true ∧
        p.placeQueryAdd rules coin count (p.queryDestination rules coin count) = true ∨
      (∃ slot path, p.queryDestination rules coin count = .inside slot path) ∨
      (∃ slot path index toCount, p.queryDestination rules coin count = .stack slot path index toCount) ∨
      p.queryDestination rules coin count = .nowhere ∧ (p.hasCapacity count = true → p.room false = 0)) := by
  have hslots := searchSlots_found (p := p) rules coin count 0 [] (fun i => by rw [Nat.zero_add])
  unfold queryDestination
  generalize p.searchSlots rules coin count 0 p.slots [] = found at hslots
  match found with
  | .inl place => exact ⟨hslots.1, .inl ⟨hslots.2.2, hslots.2.1⟩⟩
  | .inr queue =>
    obtain ⟨containers, rfl, hqueue, hsize, hvalid⟩ := hslots
    have hcontainers := searchContainers_found (p := p) coin count p.searchFuel (hsize.trans (Nat.le_succ _)) hvalid
    rw [hqueue] at hcontainers
    exact ⟨hcontainers.1, .inr hcontainers.2⟩

theorem queryDestination_found (rules : Rules) (coin : Coin) (hcapacity : p.hasCapacity count = true)
    (hroom : 0 < p.room false) :
    p.Fits coin (p.queryDestination rules coin count) ∧
      p.placeQueryAdd rules coin count (p.queryDestination rules coin count) = true ∧
      p.queryDestination rules coin count ≠ .nowhere := by
  obtain ⟨hfits, hcases⟩ := queryDestination_cases rules p coin count
  refine ⟨hfits, ?_⟩
  rcases hcases with ⟨hworn, hadd⟩ | ⟨slot, path, hplace⟩ | ⟨slot, path, index, toCount, hplace⟩ | ⟨-, hnone⟩
  · refine ⟨hadd, ?_⟩
    intro hnowhere
    rw [hnowhere] at hworn
    cases hworn
  · rw [hplace]
    exact ⟨hcapacity, nofun⟩
  · rw [hplace]
    exact ⟨hcapacity, nofun⟩
  · exact absurd (hnone hcapacity) (Nat.ne_of_gt hroom)

end Player
end ForgottenServer.Money.Carry
