import ForgottenServer.Decay.Wheel
import Mathlib.Algebra.Order.Group.Abs
import Mathlib.Data.List.TakeWhile

/-! # Decay on time

An item that is in the wheel once and is left alone runs out after a number of ticks
that its bucket and its duration tell. Other items may do what they like meanwhile. -/
namespace ForgottenServer.Decay
open ForgottenServer.Lib.Run

/-! ## Items that are left alone -/

/-- Nothing happens to the item `r`, except that it may be removed or released. -/
structure Spares (r : ℕ) (g g' : Game) : Prop where
  item : ∃ p n, g'.item r = { g.item r with place := p, referenceCounter := n }
  removed : (g.item r).isRemoved = true → (g'.item r).isRemoved = true
  queue : g'.toDecayItems.count r = g.toDecayItems.count r
  buckets : ∀ b, (g'.decayItems b).count r = (g.decayItems b).count r
  lastBucket : g'.lastBucket = g.lastBucket
  next : g.next ≤ g'.next

section Spares
variable {items : ℕ → ItemType} {w : World} {fuel r q : ℕ} {g g' g'' : Game}

theorem Spares.same : Spares r g g := ⟨⟨_, _, rfl⟩, id, rfl, fun _ => rfl, rfl, le_rfl⟩

theorem Spares.trans (h : Spares r g g') (h' : Spares r g' g'') : Spares r g g'' where
  item := by
    obtain ⟨p, n, hitem⟩ := h.item
    obtain ⟨p', n', hitem'⟩ := h'.item
    exact ⟨p', n', by rw [hitem', hitem]⟩
  removed := h'.removed ∘ h.removed
  queue := h'.queue.trans h.queue
  buckets b := (h'.buckets b).trans (h.buckets b)
  lastBucket := h'.lastBucket.trans h.lastBucket
  next := h.next.trans h'.next

theorem Spares.modify (hq : r ≠ q) (f : Item → Item) : Spares r g (g.modify q f) :=
  ⟨⟨_, _, g.modify_item_of_ne hq f⟩, by rw [g.modify_item_of_ne hq f]; exact id, rfl, fun _ => rfl, rfl, le_rfl⟩

theorem Spares.releaseItem (q : ℕ) : Spares r g (g.releaseItem q) :=
  ⟨⟨_, _, rfl⟩, id, rfl, fun _ => rfl, rfl, le_rfl⟩

theorem Spares.push (hq : r ≠ q) : Spares r g (g.push q) where
  item := ⟨_, _, Function.update_of_ne hq _ _⟩
  removed h := (congrArg Item.isRemoved (Function.update_of_ne hq _ _)).trans h
  queue := List.count_cons_of_ne hq.symm
  buckets _ := rfl
  lastBucket := rfl
  next := le_rfl

theorem Spares.update {b : Fin 4} {l : List ℕ} (hl : l.count r = (g.decayItems b).count r) :
    Spares r g { g with decayItems := Function.update g.decayItems b l } where
  item := ⟨_, _, rfl⟩
  removed := id
  queue := rfl
  buckets b' := by
    by_cases hb : b' = b
    · subst hb
      simpa using hl
    · simp [Function.update_of_ne hb]
  lastBucket := rfl
  next := le_rfl

theorem Spares.erase (hq : r ≠ q) (b : Fin 4) : Spares r g (g.erase b q) :=
  .update (List.count_erase_of_ne hq)

theorem Spares.pushBack (hq : r ≠ q) (b : Fin 4) : Spares r g (g.pushBack b q) := by
  refine .update ?_
  rw [List.count_append, List.count_cons_of_ne hq.symm, List.count_nil, Nat.add_zero]

theorem Spares.drop (hq : r ≠ q) (w : World) : Spares r g (g.drop w q) := by
  have hitem : ∃ p, (g.drop w q).item r = { g.item r with place := p } ∧ (p = (g.item r).place ∨ p = .lost) := by
    unfold Game.drop
    dsimp only [Game.releaseItem]
    rw [if_neg hq]
    split
    · exact ⟨_, rfl, .inr rfl⟩
    · exact ⟨_, rfl, .inl rfl⟩
  obtain ⟨p, hp, hplace⟩ := hitem
  refine ⟨⟨p, _, hp⟩, fun hremoved => ?_, rfl, fun _ => rfl, rfl, le_rfl⟩
  rw [hp]
  rcases hplace with rfl | rfl
  · exact hremoved
  · rfl

theorem Spares.add (hr : r < g.next) (x : Item) : Spares r g (g.add x) :=
  ⟨⟨_, _, g.add_item_of_lt hr x⟩, by rw [g.add_item_of_lt hr x]; exact id, rfl, fun _ => rfl, rfl, Nat.le_succ _⟩

theorem Spares.internalRemoveItem (hq : r ≠ q) : Spares r g (internalRemoveItem items w g q) := by
  unfold Decay.internalRemoveItem
  split
  · exact .same
  · split
    · exact .same
    · dsimp only
      rw [drop_canDecay]
      exact .drop hq w

theorem Spares.replaceItem (hr : r < g.next) (hq : r ≠ q) (y : Item) :
    Spares r g (replaceItem w g q y) := (Spares.add hr _).trans (.drop hq w)

/-- An answer that is not the item. -/
def Leaves (r : ℕ) (g : Game) (a : Game × Option ℕ) : Prop := Spares r g a.1 ∧ ∀ n ∈ a.2, r ≠ n

theorem Leaves.ite {c : Prop} [Decidable c] {a a' : Game × Option ℕ} (h : Leaves r g a)
    (h' : Leaves r g a') : Leaves r g (if c then a else a') := by
  split
  · exact h
  · exact h'

theorem Leaves.none (h : Spares r g g') : Leaves r g (g', none) := ⟨h, fun _ hn => by cases hn⟩

theorem Leaves.some (h : Spares r g g') (hq : r ≠ q) : Leaves r g (g', some q) :=
  ⟨h, fun _ hn => Option.some.inj hn ▸ hq⟩

theorem transformStep_leaves (hr : r < g.next) (hq : r ≠ q) (newId : ℕ) (newCount : ℤ) {again : Game × Option ℕ}
    (hagain : Leaves r g again) : Leaves r g (transformStep items w g q newId newCount again) := by
  have hidle : Leaves r g (g, some q) := .some .same hq
  have hnew : r ≠ g.next := hr.ne
  have hmodify : ∀ f, Spares r g (g.modify q f) := .modify hq
  have hremove : Leaves r g (internalRemoveItem items w g q, none) := .none (.internalRemoveItem hq)
  have hreplace : ∀ y, Spares r g (replaceItem w g q y) := .replaceItem hr hq
  unfold transformStep
  dsimp only
  refine .ite hidle (.ite (.none .same) (.ite hidle (.ite hidle (.ite hidle (.ite ?lift (.ite ?sameType ?replace))))))
  case lift => exact .ite (.some (hmodify _) hq) (.none ((hmodify _).trans (.drop hq w)))
  case sameType =>
    refine .ite (.ite hremove (.ite hremove (.ite ?_ hagain))) (.some (hmodify _) hq)
    split
    · exact .none .same
    · exact .some (hreplace _) hnew
  case replace =>
    split
    · exact .none .same
    · exact .ite (.some ((hreplace _).trans (.push hnew)) hnew) (.some (hreplace _) hnew)

theorem transformItem_leaves (hr : r < g.next) (hq : r ≠ q) (newId : ℕ) (newCount : ℤ) :
    Leaves r g (transformItem items w g q newId newCount) :=
  transformStep_leaves hr hq newId newCount (transformStep_leaves hr hq newId (-1) (.some .same hq))

theorem internalDecayItem_spares {start : Game → ℕ → Option Game}
    (hstart : ∀ g q, r < g.next → r ≠ q → ∀ g' ∈ start g q, Spares r g g') (hr : r < g.next) (hq : r ≠ q)
    (hg' : g' ∈ internalDecayItem items start w g q) : Spares r g g' := by
  unfold internalDecayItem at hg'
  dsimp only at hg'
  split at hg'
  · have hleaves : Leaves r g (transformItem items w g q _ (-1)) := transformItem_leaves hr hq
      (((g.item q).getDecayTo items % 2 ^ 16).toNat) (-1)
    split at hg'
    · rename_i g₁ n heq
      rw [heq] at hleaves
      exact hleaves.1.trans (hstart g₁ n (hr.trans_le hleaves.1.next) (hleaves.2 n rfl) g' hg')
    · rename_i g₁ heq
      rw [heq] at hleaves
      obtain rfl := Option.some.inj hg'
      exact hleaves.1
  · obtain rfl := Option.some.inj hg'
    exact .internalRemoveItem hq

theorem startDecay_spares (fuel : ℕ) :
    ∀ g q, r < g.next → r ≠ q → ∀ g' ∈ startDecay items w fuel g q, Spares r g g' := by
  induction fuel with
  | zero =>
    intro g q _ _ g' hg'
    cases hg'
  | succ fuel ih =>
    intro g q hr hq g' hg'
    unfold startDecay at hg'
    dsimp only at hg'
    split at hg'
    · obtain rfl := Option.some.inj hg'
      exact .same
    · split at hg'
      · obtain rfl := Option.some.inj hg'
        exact .same
      · split at hg'
        · obtain rfl := Option.some.inj hg'
          exact .push hq
        · exact internalDecayItem_spares ih hr hq hg'

theorem checkItem_spares {bucket : Fin 4} (hr : r < g.next) (hq : r ≠ q)
    (hg' : g' ∈ checkItem items fuel w bucket g q) : Spares r g g' := by
  have hmodify : ∀ f, Spares r g (g.modify q f) := .modify hq
  unfold checkItem at hg'
  dsimp only at hg'
  split at hg'
  · obtain rfl := Option.some.inj hg'
    exact ((hmodify _).trans (.releaseItem q)).trans (.erase hq bucket)
  · split at hg'
    · obtain ⟨g₂, hg₂, rfl⟩ := Option.map_eq_some_iff.mp hg'
      have hout := (hmodify (·.decreaseDuration (g.item q).decreaseTime)).trans (.erase hq bucket)
      exact (hout.trans (internalDecayItem_spares (startDecay_spares fuel) (hr.trans_le hout.next) hq
        hg₂)).trans (.releaseItem q)
    · obtain rfl := Option.some.inj hg'
      exact ((hmodify _).trans (.erase hq bucket)).trans (.pushBack hq _)
    · obtain rfl := Option.some.inj hg'
      exact hmodify _

theorem bucket_spares {bucket : Fin 4} (l : List ℕ) (hl : r ∉ l) {g g' : Game} (hr : r < g.next)
    (hg' : g' ∈ l.foldlM (checkItem items fuel w bucket) g) : Spares r g g' := by
  induction l generalizing g with
  | nil =>
    obtain rfl := Option.some.inj hg'
    exact .same
  | cons q l ih =>
    rw [List.foldlM_cons] at hg'
    obtain ⟨g₁, hg₁, hg'⟩ := Option.bind_eq_some_iff.mp hg'
    rw [List.mem_cons, not_or] at hl
    have hfirst := checkItem_spares hr hl.1 hg₁
    exact hfirst.trans (ih hl.2 (hr.trans_le hfirst.next) hg')

theorem pushBacks_count (f : ℕ → Fin 4) (l : List ℕ) (g : Game) (b : Fin 4) :
    ((l.foldl (fun g' q => g'.pushBack (f q) q) g).decayItems b).count r =
      (g.decayItems b).count r + if b = f r then l.count r else 0 := by
  induction l generalizing g with
  | nil => simp
  | cons q l ih =>
    rw [List.foldl_cons, ih]
    by_cases hq : r = q
    · subst hq
      by_cases hb : b = f r
      · simp [Game.pushBack, hb]
        omega
      · simp [Game.pushBack, hb]
    · rw [(Spares.pushBack hq (f q)).buckets b, List.count_cons_of_ne (Ne.symm hq)]

theorem cleanup_count (g : Game) (r : ℕ) (b : Fin 4) : ((cleanup g).decayItems b).count r =
      (g.decayItems b).count r + if b = (g.item r).bucketOf g.lastBucket then g.toDecayItems.count r else 0 :=
  pushBacks_count (fun q => (g.freeItems.item q).bucketOf g.freeItems.lastBucket) g.toDecayItems g.freeItems b

theorem cleanup_lastBucket (g : Game) : (cleanup g).lastBucket = g.lastBucket :=
  (pushBacks_spec (fun q => (g.freeItems.item q).bucketOf g.freeItems.lastBucket) g.toDecayItems g.freeItems).2.2.2.2.1

theorem cleanup_getDuration (g : Game) (r : ℕ) : ((cleanup g).item r).getDuration = (g.item r).getDuration := by
  rw [(cleanup_spec g).1 r]
  rfl

theorem cleanup_getDecaying (g : Game) (r : ℕ) : ((cleanup g).item r).getDecaying = (g.item r).getDecaying := by
  rw [(cleanup_spec g).1 r]
  rfl

end Spares

/-! ## Where the item waits -/

/-- It is in one bucket, once. -/
structure Waits (r : ℕ) (b : Fin 4) (d : ℕ) (g : Game) : Prop where
  known : r < g.next
  queue : g.toDecayItems.count r = 0
  buckets : ∀ b', (g.decayItems b').count r = if b' = b then 1 else 0
  duration : (g.item r).getDuration = d
  decaying : (g.item r).getDecaying = .decayingTrue

/-- It is in the wheel once, and counts as decaying. -/
structure Held (r : ℕ) (g : Game) : Prop where
  known : r < g.next
  once : g.occurrences r = 1
  decaying : (g.item r).getDecaying = .decayingTrue

/-- It is queued, once. -/
structure Queued (r : ℕ) (d : ℕ) (g : Game) : Prop where
  known : r < g.next
  queue : g.toDecayItems.count r = 1
  buckets : ∀ b, (g.decayItems b).count r = 0
  duration : (g.item r).getDuration = d
  decaying : (g.item r).getDecaying = .decayingTrue

/-- The rounds after the one in which the item is handled first. -/
def restTicks (d : ℕ) : ℕ := if d < 1000 then 0 else 4 * (d / 1000 - 1) + if 875 ≤ d % 1000 then 1 else 0

local instance bucketCount : NeZero 4 := ⟨by decide⟩

/-- The ticks to go for an item in a bucket. -/
def ticksLeft (lastBucket b : Fin 4) (d : ℕ) : ℕ := (b - lastBucket - 1 : Fin 4).val + 1 + restTicks d

section Waiting
variable {items : ℕ → ItemType} {w : World} {fuel r q d : ℕ} {b : Fin 4} {g g' : Game}

theorem Spares.getDuration (h : Spares r g g') : (g'.item r).getDuration = (g.item r).getDuration := by
  obtain ⟨p, n, hitem⟩ := h.item
  rw [hitem]
  rfl

theorem Spares.getDecaying (h : Spares r g g') : (g'.item r).getDecaying = (g.item r).getDecaying := by
  obtain ⟨p, n, hitem⟩ := h.item
  rw [hitem]
  rfl

theorem Waits.spares (hw : Waits r b d g) (h : Spares r g g') : Waits r b d g' where
  known := hw.known.trans_le h.next
  queue := h.queue.trans hw.queue
  buckets b' := (h.buckets b').trans (hw.buckets b')
  duration := h.getDuration.trans hw.duration
  decaying := h.getDecaying.trans hw.decaying

theorem Queued.spares (hw : Queued r d g) (h : Spares r g g') : Queued r d g' where
  known := hw.known.trans_le h.next
  queue := h.queue.trans hw.queue
  buckets b' := (h.buckets b').trans (hw.buckets b')
  duration := h.getDuration.trans hw.duration
  decaying := h.getDecaying.trans hw.decaying

theorem Waits.held (h : Waits r b d g) : Held r g := by
  refine ⟨h.known, ?_, h.decaying⟩
  rw [Game.occurrences, h.queue]
  simp only [h.buckets]
  simp

theorem Queued.held (h : Queued r d g) : Held r g := by
  refine ⟨h.known, ?_, h.decaying⟩
  rw [Game.occurrences, h.queue]
  simp only [h.buckets]
  simp

theorem Held.waits (h : Held r g) (hb : r ∈ g.decayItems b) : Waits r b (g.item r).getDuration g := by
  have honce := h.once
  have hpos := List.count_pos_iff.mpr hb
  rw [Game.occurrences, ← Finset.add_sum_erase _ _ (Finset.mem_univ b)] at honce
  have hrest : ∑ b' ∈ Finset.univ.erase b, (g.decayItems b').count r = 0 := by omega
  refine ⟨h.known, by omega, fun b' => ?_, rfl, h.decaying⟩
  split
  · rename_i heq
    rw [heq]
    omega
  · rename_i hne
    exact Finset.sum_eq_zero_iff.mp hrest b' (Finset.mem_erase.mpr ⟨hne, Finset.mem_univ b'⟩)

theorem Waits.cleanup (h : Waits r b d g) : Waits r b d (cleanup g) where
  known := (cleanup_spec g).2.1 ▸ h.known
  queue := rfl
  buckets b' := by
    rw [cleanup_count, h.queue, ite_self, Nat.add_zero]
    exact h.buckets b'
  duration := (cleanup_getDuration g r).trans h.duration
  decaying := (cleanup_getDecaying g r).trans h.decaying

theorem Queued.cleanup (h : Queued r d g) :
    Waits r (if 1000 ≤ d then g.lastBucket else g.lastBucket + 1) d (cleanup g) where
  known := (cleanup_spec g).2.1 ▸ h.known
  queue := rfl
  buckets b' := by
    have hplace : (g.item r).bucketOf g.lastBucket =
        if 1000 ≤ d then g.lastBucket else g.lastBucket + 1 := by
      unfold Item.bucketOf
      rw [h.duration]
      split
      · rfl
      · rename_i hshort
        rw [Nat.div_eq_of_lt (not_le.mp hshort)]
        exact Fin.add_zero _
    rw [cleanup_count, h.buckets, h.queue, hplace, Nat.zero_add]
  duration := (cleanup_getDuration g r).trans h.duration
  decaying := (cleanup_getDecaying g r).trans h.decaying

theorem ticksLeft_queued (last : Fin 4) (d : ℕ) :
    ticksLeft last (if 1000 ≤ d then last else last + 1) d = (if 1000 ≤ d then 4 else 1) + restTicks d := by
  have hself : ∀ last : Fin 4, (last - last - 1 : Fin 4) = 3 ∧ (last + 1 - last - 1 : Fin 4) = 0 := by decide
  unfold ticksLeft
  split
  · rw [(hself last).1]
    rfl
  · rw [(hself last).2]
    rfl

/-- What a tick does with an item whose time fits 31 bits. -/
theorem fate_eq {x : Item} (bucket : Fin 4) (hd : x.getDuration = d) (hpos : 1 ≤ d) (hlt : d < 2 ^ 31) :
    x.fate bucket = (if d < 1875 then .decays else if d < 2000 then .moves (bucket + 1) else .stays) ∧
      (x.decreaseDuration x.decreaseTime).getDuration = d - min 1000 d := by
  have hsigned : x.signedDuration = d := by
    have hsmall : Int.bmod (d : ℤ) (2 ^ 32) = d := by
      clear hd
      apply Int.bmod_eq_of_le <;> omega
    exact (congrArg (fun n : ℕ => Int.bmod n (2 ^ 32)) hd).trans hsmall
  have htime : x.decreaseTime = min 1000 (d : ℤ) := by rw [Item.decreaseTime, hsigned]
  refine ⟨?_, ?_⟩
  · unfold Item.fate
    dsimp only
    rw [hsigned, htime]
    by_cases hshort : d < 1875
    · rw [if_pos hshort]
      split
      · rfl
      · have hround : (((d : ℤ) - min 1000 (d : ℤ) + 125) / 1000).toNat = 0 := by omega
        rw [if_pos (by omega), hround]
        exact if_pos (Fin.add_zero bucket)
    · rw [if_neg hshort, if_neg (by omega)]
      by_cases hnext : d < 2000
      · have hround : (((d : ℤ) - min 1000 (d : ℤ) + 125) / 1000).toNat = 1 := by omega
        have hne : ∀ bucket : Fin 4, bucket + 1 ≠ bucket := by decide
        rw [if_pos (by omega), hround, if_pos hnext]
        exact if_neg (hne bucket)
      · rw [if_neg (by omega), if_neg hnext]
  · unfold Item.getDuration at hd ⊢
    have hattr : (x.decreaseDuration x.decreaseTime).attr.duration =
      some (x.attr.duration.getD 0 - x.decreaseTime) := rfl
    rw [hattr, Option.getD_some, htime]
    omega

theorem Waits.modify (h : Waits r b d g) {f : Item → Item} {d' : ℕ} (hd : (f (g.item r)).getDuration = d')
    (hf : (f (g.item r)).getDecaying = (g.item r).getDecaying) : Waits r b d' (g.modify r f) where
  known := h.known
  queue := h.queue
  buckets := h.buckets
  duration := by rw [Game.modify_item_self, hd]
  decaying := by rw [Game.modify_item_self, hf, h.decaying]

theorem Waits.move (h : Waits r b d g) {b' : Fin 4} (hne : b' ≠ b) : Waits r b' d ((g.erase b r).pushBack b' r) where
  known := h.known
  queue := h.queue
  buckets c := by
    have hc := h.buckets c
    by_cases hb' : c = b'
    · subst hb'
      rw [if_neg hne] at hc
      simp [Game.pushBack, Game.erase, Function.update_of_ne hne, hc]
    · by_cases hb : c = b
      · subst hb
        rw [if_pos rfl] at hc
        simp [Game.pushBack, Game.erase, hb', hc]
      · rw [if_neg hb] at hc
        simp [Game.pushBack, Game.erase, Function.update_of_ne hb, hb', hc]
  duration := h.duration
  decaying := h.decaying

theorem Waits.lastBucket (h : Waits r b d g) (last : Fin 4) : Waits r b d { g with lastBucket := last } :=
  ⟨h.known, h.queue, h.buckets, h.duration, h.decaying⟩

theorem Queued.lastBucket (h : Queued r d g) (last : Fin 4) : Queued r d { g with lastBucket := last } :=
  ⟨h.known, h.queue, h.buckets, h.duration, h.decaying⟩

theorem Waits.split (h : Waits r b d g) : ∃ l l', g.decayItems b = l ++ r :: l' ∧ r ∉ l ∧ r ∉ l' := by
  have hcount := h.buckets b
  rw [if_pos rfl] at hcount
  obtain ⟨l, l', heq, hl⟩ := List.eq_append_cons_of_mem (List.count_pos_iff.mp (hcount.ge))
  refine ⟨l, l', heq, hl, List.count_eq_zero.mp ?_⟩
  rw [heq, List.count_append, List.count_cons_self] at hcount
  omega

theorem Waits.not_mem (h : Waits r b d g) {b' : Fin 4} (hne : b' ≠ b) : r ∉ g.decayItems b' := by
  rw [← List.count_eq_zero, h.buckets, if_neg hne]

theorem ticksLeft_other {last : Fin 4} (hb : last + 1 ≠ b) (d : ℕ) :
    ticksLeft last b d = ticksLeft (last + 1) b d + 1 := by
  have hstep : ∀ last b : Fin 4, last + 1 ≠ b → (b - last - 1 : Fin 4).val = (b - (last + 1) - 1 : Fin 4).val + 1 := by
    decide
  rw [ticksLeft, ticksLeft, hstep last b hb]
  omega

theorem ticksLeft_next (last : Fin 4) (d : ℕ) : ticksLeft last (last + 1) d = 1 + restTicks d := by
  have hself : ∀ last : Fin 4, (last + 1 - last - 1 : Fin 4) = 0 := by decide
  rw [ticksLeft, hself]
  rfl

theorem ticksLeft_self (last : Fin 4) (d : ℕ) : ticksLeft last last d = 4 + restTicks d := by
  have hself : ∀ last : Fin 4, (last - last - 1 : Fin 4) = 3 := by decide
  rw [ticksLeft, hself]
  rfl

theorem restTicks_eq_zero_iff : restTicks d = 0 ↔ d < 1875 := by
  unfold restTicks
  constructor
  · intro h
    split_ifs at h <;> omega
  · intro h
    split_ifs <;> omega

theorem restTicks_last (h : 1875 ≤ d) (h' : d < 2000) : restTicks d = 1 ∧ restTicks (d - 1000) = 0 := by
  unfold restTicks
  split_ifs <;> omega

theorem restTicks_sub (h : 2000 ≤ d) : restTicks d = 4 + restTicks (d - 1000) := by
  unfold restTicks
  split_ifs <;> omega

end Waiting

/-! ## Ticks -/

/-- The game when the turn of the item comes in a tick. -/
def atTurn (items : ℕ → ItemType) (fuel : ℕ) (w : World) (g : Game) (r : ℕ) : Option Game :=
  ((g.decayItems (g.lastBucket + 1)).takeWhile (· ≠ r)).foldlM (checkItem items fuel w (g.lastBucket + 1)) g

/-- Whether a tick decays the item. -/
def decayedIn (items : ℕ → ItemType) (fuel : ℕ) (w : World) (g : Game) (r : ℕ) : Option Bool :=
  (atTurn items fuel w g r).map fun g' =>
    r ∈ g.decayItems (g.lastBucket + 1) && (g'.item r).canDecay items && (g'.item r).fate (g.lastBucket + 1) = .decays

/-- Nothing is done to the item, and it can decay whenever its turn comes. -/
def Untouched (items : ℕ → ItemType) (fuel r : ℕ) (g : Game) : Event → Prop
  | .startDecay _ q => q ≠ r
  | .transformItem _ q _ _ => q ≠ r
  | .setID q _ => q ≠ r
  | .remove _ q => q ≠ r
  | .clone _ => True
  | .cleanup => True
  | .checkDecay w => r ∈ g.decayItems (g.lastBucket + 1) →
    ∀ g' ∈ atTurn items fuel w g r, (g'.item r).canDecay items = true

section Ticks
variable {items : ℕ → ItemType} {w : World} {fuel r d : ℕ} {b : Fin 4} {g g' : Game}

theorem atTurn_of_not_mem (h : r ∉ g.decayItems (g.lastBucket + 1)) : atTurn items fuel w g r =
      (g.decayItems (g.lastBucket + 1)).foldlM (checkItem items fuel w (g.lastBucket + 1)) g := by
  have hall : (g.decayItems (g.lastBucket + 1)).takeWhile (· ≠ r) = g.decayItems (g.lastBucket + 1) := by
    rw [List.takeWhile_eq_self_iff]
    intro q hq
    refine decide_eq_true fun heq => h ?_
    rwa [← heq]
  rw [atTurn, hall]

theorem atTurn_of_split {l l' : List ℕ} (h : g.decayItems (g.lastBucket + 1) = l ++ r :: l') (hl : r ∉ l) :
    atTurn items fuel w g r = l.foldlM (checkItem items fuel w (g.lastBucket + 1)) g := by
  have hbefore : (l ++ r :: l').takeWhile (· ≠ r) = l := by
    rw [List.takeWhile_append_of_pos, List.takeWhile_cons_of_neg (by simp), List.append_nil]
    intro q hq
    refine decide_eq_true fun heq => hl ?_
    rwa [← heq]
  rw [atTurn, h, hbefore]

theorem decayedIn_isSome (hg' : g' ∈ checkDecay items fuel w g) : (decayedIn items fuel w g r).isSome = true := by
  obtain ⟨g₁, hg₁, -⟩ := Option.bind_eq_some_iff.mp hg'
  rw [decayedIn, Option.isSome_map]
  by_cases hmem : r ∈ g.decayItems (g.lastBucket + 1)
  · obtain ⟨l, l', heq, hl⟩ := List.eq_append_cons_of_mem hmem
    rw [heq, List.foldlM_append] at hg₁
    obtain ⟨g₂, hg₂, -⟩ := Option.bind_eq_some_iff.mp hg₁
    rw [atTurn_of_split heq hl, hg₂]
    rfl
  · rw [atTurn_of_not_mem hmem, hg₁]
    rfl

theorem decayedIn_of_not_mem (h : r ∉ g.decayItems (g.lastBucket + 1)) :
    ∀ c ∈ decayedIn items fuel w g r, c = false := by
  intro c hc
  obtain ⟨g₁, _, rfl⟩ := Option.map_eq_some_iff.mp hc
  simp [h]

theorem Waits.pass (h : Waits r b d g) (hb : g.lastBucket + 1 ≠ b) (hg' : g' ∈ checkDecay items fuel w g) :
    Waits r b d g' ∧ g'.lastBucket = g.lastBucket + 1 := by
  obtain ⟨g₁, hg₁, hlast⟩ := Option.bind_eq_some_iff.mp hg'
  obtain rfl := Option.some.inj hlast
  have hspares := bucket_spares _ (h.not_mem hb) h.known hg₁
  exact ⟨((h.spares hspares).lastBucket _).cleanup, cleanup_lastBucket _⟩

theorem Queued.tick (h : Queued r d g) (hg' : g' ∈ checkDecay items fuel w g) :
    Waits r (if 1000 ≤ d then g'.lastBucket else g'.lastBucket + 1) d g' := by
  obtain ⟨g₁, hg₁, hlast⟩ := Option.bind_eq_some_iff.mp hg'
  obtain rfl := Option.some.inj hlast
  have hout : r ∉ g.decayItems (g.lastBucket + 1) := List.count_eq_zero.mp (h.buckets _)
  have hqueued := ((h.spares (bucket_spares _ hout h.known hg₁)).lastBucket (g.lastBucket + 1)).cleanup
  rwa [cleanup_lastBucket]

theorem Waits.handled (h : Waits r b d g) {bucket : Fin 4} (hb : b = bucket) (hpos : 1 ≤ d) (hlt : d < 2 ^ 31)
    (hcan : (g.item r).canDecay items = true) (hlong : 1875 ≤ d) (hg' : g' ∈ checkItem items fuel w bucket g r) :
    Waits r (if d < 2000 then bucket + 1 else bucket) (d - 1000) g' := by
  subst hb
  obtain ⟨hfate, hdur⟩ := fate_eq b h.duration hpos hlt
  rw [if_neg (not_lt.mpr hlong)] at hfate
  rw [min_eq_left (by omega)] at hdur
  have hless : Waits r b (d - 1000) (g.modify r (·.decreaseDuration (g.item r).decreaseTime)) := h.modify hdur rfl
  unfold checkItem at hg'
  simp only [hcan, Bool.not_true, Bool.false_eq_true, if_false, hfate] at hg'
  by_cases hnext : d < 2000
  · have hne : ∀ b : Fin 4, b + 1 ≠ b := by decide
    rw [if_pos hnext] at hg' ⊢
    obtain rfl := Option.some.inj hg'
    exact hless.move (hne b)
  · rw [if_neg hnext] at hg' ⊢
    obtain rfl := Option.some.inj hg'
    exact hless

/-- A tick decays the item if it was the last to go, else there is one less. -/
theorem Waits.tick (h : Waits r b d g) (hpos : 1 ≤ d) (hlt : d < 2 ^ 31)
    (huntouched : Untouched items fuel r g (.checkDecay w)) :
    (∀ c ∈ decayedIn items fuel w g r, c = decide (ticksLeft g.lastBucket b d = 1)) ∧
    (ticksLeft g.lastBucket b d ≠ 1 → ∀ g' ∈ checkDecay items fuel w g, ∃ b' d', Waits r b' d' g' ∧
      1 ≤ d' ∧ d' < 2 ^ 31 ∧ ticksLeft g'.lastBucket b' d' + 1 = ticksLeft g.lastBucket b d) := by
  by_cases hb : g.lastBucket + 1 = b
  · subst hb
    obtain ⟨l, l', hsplit, hl, hl'⟩ := h.split
    have hmem : r ∈ g.decayItems (g.lastBucket + 1) := by
      rw [hsplit]
      exact List.mem_append_right _ List.mem_cons_self
    have hturn : atTurn items fuel w g r = _ := atTurn_of_split hsplit hl
    have hleft : ticksLeft g.lastBucket (g.lastBucket + 1) d = 1 ↔ d < 1875 := by
      rw [ticksLeft_next, ← restTicks_eq_zero_iff]
      omega
    refine ⟨fun c hc => ?_, fun hmore g' hg' => ?_⟩
    · obtain ⟨g₁, hg₁, rfl⟩ := Option.map_eq_some_iff.mp hc
      have hcan := huntouched hmem g₁ hg₁
      rw [hturn] at hg₁
      have hwaits := h.spares (bucket_spares l hl h.known hg₁)
      rw [Bool.eq_iff_iff, decide_eq_true_iff, hleft, (fate_eq _ hwaits.duration hpos hlt).1]
      simp only [hmem, hcan, decide_true, Bool.true_and, decide_eq_true_eq]
      split_ifs <;> simp_all
    · obtain ⟨g₃, hg₃, hlast⟩ := Option.bind_eq_some_iff.mp hg'
      obtain rfl := Option.some.inj hlast
      rw [hsplit, List.foldlM_append] at hg₃
      obtain ⟨g₁, hg₁, hrest⟩ := Option.bind_eq_some_iff.mp hg₃
      rw [List.foldlM_cons] at hrest
      obtain ⟨g₂, hg₂, hg₃⟩ := Option.bind_eq_some_iff.mp hrest
      have hlong : 1875 ≤ d := not_lt.mp fun hshort => hmore (hleft.mpr hshort)
      have hfirst := bucket_spares l hl h.known hg₁
      have hmoved := (h.spares hfirst).handled rfl hpos hlt (huntouched hmem g₁ (hturn ▸ hg₁)) hlong hg₂
      have hend := (hmoved.spares (bucket_spares l' hl' hmoved.known hg₃)).lastBucket (g.lastBucket + 1)
      refine ⟨_, _, hend.cleanup, by omega, by omega, ?_⟩
      rw [cleanup_lastBucket]
      dsimp only
      by_cases hnext : d < 2000
      · rw [if_pos hnext, ticksLeft_next, ticksLeft_next, (restTicks_last hlong hnext).1,
          (restTicks_last hlong hnext).2]
      · rw [if_neg hnext, ticksLeft_self, ticksLeft_next, restTicks_sub (not_lt.mp hnext)]
        omega
  · have hleft := ticksLeft_other hb d
    refine ⟨fun c hc => ?_, fun _ g' hg' => ?_⟩
    · rw [decayedIn_of_not_mem (h.not_mem hb) c hc, eq_comm, decide_eq_false_iff_not, hleft]
      unfold ticksLeft
      omega
    · obtain ⟨hpass, hlast⟩ := h.pass hb hg'
      exact ⟨b, d, hpass, hpos, hlt, by rw [hlast, ← hleft]⟩

end Ticks

/-! ## What becomes of the item -/

/-- It exists and is not in the wheel. -/
structure Out (r : ℕ) (g : Game) : Prop where
  known : r < g.next
  queue : g.toDecayItems.count r = 0
  buckets : ∀ b, (g.decayItems b).count r = 0

/-- It is out of the wheel, or queued once more. -/
def Settles (r : ℕ) (g : Game) : Prop := Out r g ∨ ∃ d, Queued r d g ∧ 1 ≤ d

def Item.decayId (items : ℕ → ItemType) (x : Item) : ℕ := (x.getDecayTo items % 2 ^ 16).toNat

/-- There is such a type, and 32 bits are enough for its duration. -/
structure Sound (items : ℕ → ItemType) (n : ℕ) : Prop where
  id : (items n).id = n
  exists' : n ≠ 0 ∧ (items n).group ≠ .deprecated
  duration : (items n).decayTime = 0 ∨ 0 < (items n).duration

/-- The parent of the item lets it be removed, or be made another item of a type that exists. -/
structure Willing (items : ℕ → ItemType) (w : World) (r : ℕ) (x : Item) : Prop where
  removes : (items x.id).decayTo = 0 → w.canRemove r = true
  transforms : (items x.id).decayTo ≠ 0 → w.hasIndex r = true ∧ w.canTransform r = true
  becomes : (items x.id).decayTo ≠ 0 → Sound items (x.decayId items) ∧ (items x.id).id = x.id ∧ x.id ≠ x.decayId items

/-- An item `x` has become `y`: it is gone, or it is what it decays to. -/
def Decayed (items : ℕ → ItemType) (x y : Item) : Prop :=
  y.isRemoved = true ∨ (items x.id).decayTo ≠ 0 ∧ y.id = x.decayId items

section Turn
variable {items : ℕ → ItemType} {w : World} {fuel r n : ℕ} {g g' : Game} {x : Item}

theorem Out.spares (h : Out r g) (hs : Spares r g g') : Out r g' :=
  ⟨h.known.trans_le hs.next, hs.queue.trans h.queue, fun b => (hs.buckets b).trans (h.buckets b)⟩

theorem Out.modify (h : Out r g) (q : ℕ) (f : Item → Item) : Out r (g.modify q f) :=
  ⟨h.known, h.queue, h.buckets⟩

theorem Out.drop (h : Out r g) (w : World) (q : ℕ) : Out r (g.drop w q) := ⟨h.known, h.queue, h.buckets⟩

theorem Out.add (h : Out r g) (x : Item) : Out r (g.add x) :=
  ⟨h.known.trans (Nat.lt_succ_self _), h.queue, h.buckets⟩

theorem Out.cleanup (h : Out r g) : Out r (cleanup g) := by
  refine ⟨(cleanup_spec g).2.1 ▸ h.known, rfl, fun b => ?_⟩
  rw [cleanup_count, h.buckets, h.queue, ite_self]

theorem Out.queued (h : Out r g) : Queued r (g.item r).getDuration (g.push r) := by
  refine ⟨h.known, ?_, h.buckets, ?_, ?_⟩
  · change (r :: g.toDecayItems).count r = 1
    rw [List.count_cons_self, h.queue]
  · change (Item.getDuration (Function.update g.item r _ r)) = _
    rw [Function.update_self]
    rfl
  · change (Item.getDecaying (Function.update g.item r _ r)) = _
    rw [Function.update_self]
    rfl

theorem Out.ite {c : Prop} [Decidable c] {a a' : Game × Option ℕ} (h : Out r a.1) (h' : Out r a'.1) :
    Out r (if c then a else a').1 := by
  split
  · exact h
  · exact h'

theorem Out.internalRemoveItem (h : Out r g) : Out r (internalRemoveItem items w g r) := by
  unfold Decay.internalRemoveItem
  split
  · exact h
  · split
    · exact h
    · dsimp only
      rw [drop_canDecay]
      exact h.drop w r

/-- Only the new item is ever queued. -/
theorem transformStep_out (h : Out r g) (newId : ℕ) (newCount : ℤ) {again : Game × Option ℕ} (hagain : Out r again.1) :
    Out r (transformStep items w g r newId newCount again).1 := by
  have hreplace : ∀ y, Out r (replaceItem w g r y) := fun y => (h.add _).drop w r
  have hmodify : ∀ f (q : Option ℕ), Out r (g.modify r f, q).1 := fun f _ => h.modify r f
  unfold transformStep
  dsimp only
  refine .ite h (.ite h (.ite h (.ite h (.ite h (.ite ?lift (.ite ?sameType ?replace))))))
  case lift => exact .ite (hmodify _ _) ((h.modify _ _).drop w r)
  case sameType =>
    refine .ite (.ite h.internalRemoveItem (.ite h.internalRemoveItem (.ite ?_ hagain))) (hmodify _ _)
    split
    · exact h
    · exact hreplace _
  case replace =>
    split
    · exact h
    · exact .ite ((hreplace _).spares (.push h.known.ne)) (hreplace _)

theorem internalDecayItem_out {start : Game → ℕ → Option Game} (hself : ∀ g, Out r g → ∀ g' ∈ start g r, Settles r g')
    (hother : ∀ g q, r < g.next → r ≠ q → ∀ g' ∈ start g q, Spares r g g') (h : Out r g)
    (hg' : g' ∈ internalDecayItem items start w g r) : Settles r g' := by
  unfold internalDecayItem at hg'
  dsimp only at hg'
  split at hg'
  · have hout : Out r (transformItem items w g r ((g.item r).getDecayTo items % 2 ^ 16).toNat (-1)).1 :=
      transformStep_out h _ _ (transformStep_out h _ _ h)
    split at hg'
    · rename_i g₁ q heq
      rw [heq] at hout
      by_cases hq : r = q
      · subst hq
        exact hself g₁ hout g' hg'
      · exact .inl (hout.spares (hother g₁ q hout.known hq g' hg'))
    · rename_i g₁ heq
      rw [heq] at hout
      obtain rfl := Option.some.inj hg'
      exact .inl hout
  · obtain rfl := Option.some.inj hg'
    exact .inl h.internalRemoveItem

theorem startDecay_out (fuel : ℕ) : ∀ g, Out r g → ∀ g' ∈ startDecay items w fuel g r, Settles r g' := by
  induction fuel with
  | zero =>
    intro g _ g' hg'
    cases hg'
  | succ fuel ih =>
    intro g h g' hg'
    unfold startDecay at hg'
    dsimp only at hg'
    split at hg'
    · obtain rfl := Option.some.inj hg'
      exact .inl h
    · split at hg'
      · obtain rfl := Option.some.inj hg'
        exact .inl h
      · split at hg'
        · rename_i hpos
          obtain rfl := Option.some.inj hg'
          exact .inr ⟨_, h.queued, hpos⟩
        · exact internalDecayItem_out ih (startDecay_spares fuel) h hg'

/-- An item that has been given a type to decay to: it still counts as decaying, has a time of
its own to go, or does not decay. -/
structure Ready (items : ℕ → ItemType) (n : ℕ) (y : Item) : Prop where
  id : y.id = n
  state : y.getDecaying = .decayingTrue ∨ 0 < y.getDuration ∨ (items n).decayTime = 0

theorem getDuration_setDuration (x : Item) {n : ℕ} (h : n < 2 ^ 32) : (x.setDuration n).getDuration = n := by
  have hmod : Int.bmod n (2 ^ 32) % (2 ^ 32 : ℕ) = n % (2 ^ 32 : ℕ) := Int.bmod_emod
  rw [Item.getDuration, Item.setDuration, Item.setAttr, Item.attr, Option.getD_some, Option.getD_some]
  generalize Int.bmod n (2 ^ 32) = m at hmod ⊢
  omega

theorem Ready.setID (hstate : x.getDecaying = .decayingTrue)
    (hsound : (items n).decayTime = 0 ∨ 0 < (items n).duration) : Ready items n (x.setID items n) := by
  have howner : ∀ y : Item, (y.removeAttr ({ · with corpseOwner := none })).getDecaying = y.getDecaying := by
    intro y
    cases ha : y.attributes <;> simp [Item.removeAttr, Item.getDecaying, Item.attr, ha]
  unfold Item.setID
  dsimp only
  by_cases hnew : 0 < (items n).duration
  · simp only [hnew.ne', false_and, if_false]
    split
    · refine ⟨rfl, .inr (.inl ?_)⟩
      have hlt : (items n).duration < 2 ^ 32 := Nat.mod_lt _ (by decide)
      rwa [getDuration_setDuration _ hlt]
    · exact ⟨rfl, .inl ((howner _).trans hstate)⟩
  · have htime := hsound.resolve_right hnew
    split <;> split <;> exact ⟨rfl, .inr (.inr htime)⟩

theorem setSubType_same (x : Item) (c : ℤ) : (x.setSubType items c).id = x.id ∧
    (x.setSubType items c).getDecaying = x.getDecaying ∧ (x.setSubType items c).getDuration = x.getDuration := by
  unfold Item.setSubType
  dsimp only
  repeat' split
  all_goals exact ⟨rfl, rfl, rfl⟩

theorem setDefaultSubtype_getDecaying (x : Item) : (x.setDefaultSubtype items).getDecaying = x.getDecaying := by
  unfold Item.setDefaultSubtype
  dsimp only
  repeat' split
  all_goals rfl

theorem ready_updated (hstate : x.getDecaying = .decayingTrue) (hn : Sound items n) (hne : (items x.id).id ≠ n) :
    Ready items n (updated items x n (-1)) := by
  have hid : (items x.id).id ≠ (items n).id := by rwa [hn.id]
  obtain ⟨y, hy, heq⟩ : ∃ y : Item, y.getDecaying = .decayingTrue ∧
      updated items x n (-1) = (y.setID items n).setSubType items (x.getSubType items) := by
    unfold Decay.updated
    simp only [hid, ne_eq, not_false_eq_true, true_and, if_true, not_true_eq_false, false_and, if_false]
    split
    · exact ⟨_, (setDefaultSubtype_getDecaying x).trans hstate, rfl⟩
    · exact ⟨_, hstate, rfl⟩
  obtain ⟨hsame, hdecaying, hduration⟩ := @setSubType_same items (y.setID items n) (x.getSubType items)
  have hready := Ready.setID hy hn.duration
  rw [heq]
  exact ⟨hsame.trans hready.id, by rw [hdecaying, hduration]; exact hready.state⟩

theorem Ready.startDecay (h : Ready items n (g.item r)) (hg' : g' ∈ startDecay items w fuel g r) :
    (g'.item r).id = n := by
  cases fuel with
  | zero => cases hg'
  | succ fuel =>
    unfold Decay.startDecay at hg'
    dsimp only at hg'
    split at hg'
    · obtain rfl := Option.some.inj hg'
      exact h.id
    · rename_i hcan
      split at hg'
      · obtain rfl := Option.some.inj hg'
        exact h.id
      · rename_i hstate
        rcases h.state with hy | hy | hy
        · exact absurd hy hstate
        · rw [if_pos hy] at hg'
          obtain rfl := Option.some.inj hg'
          exact (congrArg Item.id (Function.update_self r _ g.item)).trans h.id
        · rw [Item.canDecay, h.id, hy] at hcan
          simp at hcan

/-- The item is made what it decays to, or another item is, which takes its place. -/
theorem transformItem_becomes (hr : r < g.next) (hplace : (g.item r).place = .world)
    (hstate : (g.item r).getDecaying = .decayingTrue) (hw : Willing items w r (g.item r))
    (hto : (items (g.item r).id).decayTo ≠ 0) {a : Game × Option ℕ}
    (ha : transformItem items w g r ((g.item r).decayId items) (-1) = a) :
    ((a.1.item r).isRemoved = true ∧ r < a.1.next ∧ ∀ q ∈ a.2, r ≠ q) ∨
      a.2 = some r ∧ Ready items ((g.item r).decayId items) (a.1.item r) := by
  obtain ⟨hindex, htransform⟩ := hw.transforms hto
  obtain ⟨hsound, hid, hne⟩ := hw.becomes hto
  have hparent : (g.item r).hasParent = true := by rw [Item.hasParent, hplace]; rfl
  have hgone : ∀ g₁ : Game, (((g₁.drop w r).item r).isRemoved = true) := fun g₁ => by
    rw [Game.drop_item_self]
    rfl
  have hzero : (items ((g.item r).decayId items)).id ≠ 0 := by rw [hsound.id]; exact hsound.exists'.1
  rw [transformItem] at ha
  generalize transformStep items w g r _ (-1) (g, some r) = again at ha
  unfold transformStep at ha
  dsimp only at ha
  rw [if_neg fun h => hne h.1, if_neg (by simp [hparent]), if_neg (by simp [hindex]), if_neg (by simp [htransform]),
    if_neg hzero] at ha
  split at ha
  · split at ha
    · subst ha
      refine .inr ⟨rfl, ?_⟩
      rw [Game.modify_item_self]
      exact .setID hstate hsound.duration
    · subst ha
      exact .inl ⟨hgone _, hr, fun q hq => by cases hq⟩
  · split at ha
    · rw [if_neg (by simp)] at ha
      subst ha
      refine .inr ⟨rfl, ?_⟩
      rw [Game.modify_item_self]
      exact ready_updated hstate hsound (by rwa [hid])
    · split at ha
      · rename_i hnone
        unfold Item.create at hnone
        dsimp only at hnone
        rw [if_neg (not_or.mpr ⟨hsound.exists'.2, hzero⟩)] at hnone
        split at hnone <;> cases hnone
      · have hnew : r ≠ g.next := hr.ne
        have hkept : ∀ y, ((replaceItem w g r y).item r).isRemoved = true := fun y => hgone _
        split at ha
        · subst ha
          refine .inl ⟨(Spares.push (g := replaceItem w g r _) hnew).removed (hkept _),
            hr.trans (Nat.lt_succ_self _), fun q hq => ?_⟩
          obtain rfl := Option.some.inj hq
          exact hnew
        · subst ha
          refine .inl ⟨hkept _, hr.trans (Nat.lt_succ_self _), fun q hq => ?_⟩
          obtain rfl := Option.some.inj hq
          exact hnew

theorem internalDecayItem_decayed (hr : r < g.next) (hplace : (g.item r).place = .world)
    (hstate : (g.item r).getDecaying = .decayingTrue) (hw : Willing items w r (g.item r))
    (hg' : g' ∈ internalDecayItem items (startDecay items w fuel) w g r) : Decayed items (g.item r) (g'.item r) := by
  unfold internalDecayItem at hg'
  dsimp only at hg'
  split at hg'
  · rename_i hto
    split at hg'
    · rename_i g₁ q heq
      rcases transformItem_becomes hr hplace hstate hw hto heq with ⟨hremoved, hr₁, hq⟩ | ⟨hself, hready⟩
      · exact .inl ((startDecay_spares fuel g₁ q hr₁ (hq q rfl) g' hg').removed hremoved)
      · obtain rfl := Option.some.inj hself
        exact .inr ⟨hto, hready.startDecay hg'⟩
    · rename_i g₁ heq
      obtain rfl := Option.some.inj hg'
      rcases transformItem_becomes hr hplace hstate hw hto heq with ⟨hremoved, -⟩ | ⟨hself, -⟩
      · exact .inl hremoved
      · cases hself
  · rename_i hto
    obtain rfl := Option.some.inj hg'
    refine .inl ?_
    have hparent : (g.item r).hasParent = true := by rw [Item.hasParent, hplace]; rfl
    unfold Decay.internalRemoveItem
    rw [if_neg (by simp [hparent]), if_neg (by simp [hw.removes (not_not.mp hto)])]
    dsimp only
    rw [drop_canDecay, if_neg Bool.false_ne_true, Game.drop_item_self]
    rfl

theorem Decayed.spares (h : Decayed items x (g.item r)) (hs : Spares r g g') : Decayed items x (g'.item r) := by
  obtain ⟨p, m, hitem⟩ := hs.item
  refine h.imp hs.removed fun ⟨hto, hid⟩ => ⟨hto, ?_⟩
  rw [hitem]
  exact hid

/-- A tick that decays the item takes it out of the wheel, unless its decay starts anew. -/
theorem Held.decayed (h : Held r g) (hdecays : ∀ c ∈ decayedIn items fuel w g r, c = true)
    (hg' : g' ∈ checkDecay items fuel w g) :
    (Willing items w r (g.item r) → Decayed items (g.item r) (g'.item r)) ∧
      (Out r g' ∨ ∃ b d, Waits r b d g' ∧ 1 ≤ d) := by
  obtain ⟨c, hc⟩ := Option.isSome_iff_exists.mp (decayedIn_isSome (r := r) hg')
  obtain ⟨g₁, hg₁, hturn⟩ := Option.map_eq_some_iff.mp hc
  rw [hdecays c hc] at hturn
  simp only [Bool.and_eq_true, decide_eq_true_eq] at hturn
  obtain ⟨⟨hmem, hcan⟩, hfate⟩ := hturn
  have hwaits := h.waits hmem
  obtain ⟨l, l', hsplit, hl, hl'⟩ := hwaits.split
  rw [atTurn_of_split hsplit hl] at hg₁
  obtain ⟨g₄, hg₄, hlast⟩ := Option.bind_eq_some_iff.mp hg'
  obtain rfl := Option.some.inj hlast
  rw [hsplit, List.foldlM_append, hg₁, Option.bind_eq_bind, Option.bind_some, List.foldlM_cons] at hg₄
  obtain ⟨g₃, hg₃, hrest⟩ := Option.bind_eq_some_iff.mp hg₄
  have hfirst := bucket_spares l hl h.known hg₁
  have hwaits₁ := hwaits.spares hfirst
  unfold checkItem at hg₃
  simp only [hcan, Bool.not_true, Bool.false_eq_true, if_false, hfate] at hg₃
  obtain ⟨g₂, hg₂, rfl⟩ := Option.map_eq_some_iff.mp hg₃
  -- the item at its turn, with the time that is left
  have hitem : (((g₁.modify r (·.decreaseDuration (g₁.item r).decreaseTime)).erase (g.lastBucket + 1) r).item r) =
      (g₁.item r).decreaseDuration (g₁.item r).decreaseTime :=
    g₁.modify_item_self r (·.decreaseDuration (g₁.item r).decreaseTime)
  have hout : Out r ((g₁.modify r (·.decreaseDuration (g₁.item r).decreaseTime)).erase (g.lastBucket + 1) r) := by
    refine ⟨hwaits₁.known, hwaits₁.queue, fun b => ?_⟩
    have hb := hwaits₁.buckets b
    by_cases heq : b = g.lastBucket + 1
    · rw [if_pos heq] at hb
      subst heq
      simp [Game.erase, Game.modify, hb]
    · rw [if_neg heq] at hb
      simp [Game.erase, Game.modify, Function.update_of_ne heq, hb]
  have hsettles := internalDecayItem_out (startDecay_out fuel) (startDecay_spares fuel) hout hg₂
  have hafter : Spares r g₂ g₄ := by
    have hknown : r < g₂.next := by
      obtain hgone | ⟨_, hqueued, _⟩ := hsettles
      · exact hgone.known
      · exact hqueued.known
    exact (Spares.releaseItem r).trans (bucket_spares l' hl' hknown hrest)
  refine ⟨fun hw => ?_, ?_⟩
  · have hsame : ∃ p m, g₁.item r = { g.item r with place := p, referenceCounter := m } := hfirst.item
    obtain ⟨p, m, hsame⟩ := hsame
    have hplace : (g₁.item r).place = .world := by
      by_contra hne
      simp [Item.canDecay, Item.isRemoved, hne] at hcan
    have hdecayed := internalDecayItem_decayed hout.known (by rw [hitem]; exact hplace)
      (by rw [hitem]; exact hwaits₁.decaying) (by rw [hitem, hsame]; exact ⟨hw.removes, hw.transforms, hw.becomes⟩) hg₂
    rw [hitem, hsame] at hdecayed
    have hend : Decayed items (g.item r) (g₄.item r) := Decayed.spares hdecayed hafter
    rw [(cleanup_spec _).1 r]
    exact hend
  · rcases hsettles with hsettled | ⟨d, hqueued, hpos⟩
    · have hend := hsettled.spares hafter
      exact .inl (Out.cleanup ⟨hend.known, hend.queue, hend.buckets⟩)
    · exact .inr ⟨_, d, ((hqueued.spares hafter).lastBucket (g.lastBucket + 1)).cleanup, hpos⟩

end Turn

/-! ## Runs -/

def Event.isTick : Event → Bool
  | .checkDecay _ => true
  | _ => false

def ticks (es : List Event) : ℕ := es.countP Event.isTick

/-- It waits for the `n`-th tick from now. -/
def At (r n : ℕ) (g : Game) : Prop :=
  ∃ b d, Waits r b d g ∧ 1 ≤ d ∧ d < 2 ^ 31 ∧ ticksLeft g.lastBucket b d = n

/-- Every step of the run leaves the item alone. -/
def Alone (items : ℕ → ItemType) (fuel r : ℕ) (g : Game) (es : List Event) : Prop :=
  Along (stepAll items fuel) (fun s e => ∀ g ∈ s, Untouched items fuel r g e) (some g) es

section Runs
variable {items : ℕ → ItemType} {w : World} {fuel r d n : ℕ} {g g' : Game} {e : Event} {es : List Event}

@[simp] theorem ticks_cons (e : Event) (es : List Event) :
    ticks (e :: es) = ticks es + if e.isTick then 1 else 0 := List.countP_cons

theorem step_spares (hr : r < g.next) (htick : e.isTick = false) (hclean : e ≠ .cleanup)
    (huntouched : Untouched items fuel r g e) (hg' : g' ∈ step items fuel g e) : Spares r g g' := by
  cases e with
  | startDecay w q =>
    simp only [step] at hg'
    split at hg'
    · exact startDecay_spares fuel g q hr (Ne.symm huntouched) g' hg'
    · obtain rfl := Option.some.inj hg'
      exact .same
  | transformItem w q newId newCount =>
    obtain rfl := Option.some.inj hg'
    split
    · exact (transformItem_leaves hr (Ne.symm huntouched) newId newCount).1
    · exact .same
  | setID q newId =>
    obtain rfl := Option.some.inj hg'
    split
    · exact .modify (Ne.symm huntouched) _
    · exact .same
  | clone q =>
    obtain rfl := Option.some.inj hg'
    split
    · unfold clone
      dsimp only
      split
      · exact .same
      · split
        · exact (Spares.add hr _).trans (.push hr.ne)
        · exact .add hr _
    · exact .same
  | remove w q =>
    obtain rfl := Option.some.inj hg'
    split
    · exact .internalRemoveItem (Ne.symm huntouched)
    · exact .same
  | checkDecay w => cases htick
  | cleanup => exact absurd rfl hclean

theorem At.tick (h : At r n g) (huntouched : Untouched items fuel r g (.checkDecay w)) :
    (∀ c ∈ decayedIn items fuel w g r, c = decide (n = 1)) ∧
      (n ≠ 1 → ∀ g' ∈ checkDecay items fuel w g, At r (n - 1) g') := by
  obtain ⟨b, d, hwaits, hpos, hlt, rfl⟩ := h
  obtain ⟨hdecayed, hless⟩ := hwaits.tick hpos hlt huntouched
  refine ⟨hdecayed, fun hmore g' hg' => ?_⟩
  obtain ⟨b', d', hwaits', hpos', hlt', hleft⟩ := hless hmore g' hg'
  exact ⟨b', d', hwaits', hpos', hlt', by omega⟩

theorem At.step (h : At r n g) (huntouched : Untouched items fuel r g e) (hmore : (if e.isTick then 1 else 0) < n)
    (hg' : g' ∈ step items fuel g e) : At r (n - if e.isTick then 1 else 0) g' := by
  cases htick : e.isTick with
  | true =>
    cases e with
    | checkDecay w =>
      have hone : 1 < n := hmore
      exact (h.tick huntouched).2 hone.ne' g' hg'
    | _ => cases htick
  | false =>
    rw [if_neg Bool.false_ne_true, Nat.sub_zero]
    obtain ⟨b, d, hwaits, hpos, hlt, hleft⟩ := h
    by_cases hclean : e = .cleanup
    · subst hclean
      obtain rfl := Option.some.inj hg'
      exact ⟨b, d, hwaits.cleanup, hpos, hlt, by rw [cleanup_lastBucket, hleft]⟩
    · have hspares := step_spares hwaits.known htick hclean huntouched hg'
      exact ⟨b, d, hwaits.spares hspares, hpos, hlt, by rw [hspares.lastBucket, hleft]⟩

theorem run_none (es : List Event) : run (stepAll items fuel) none es = none := by
  induction es with
  | nil => rfl
  | cons e es ih => exact ih

theorem At.run (h : At r n g) (halone : Alone items fuel r g es) (hmore : ticks es < n) :
    ∀ g' ∈ run (stepAll items fuel) (some g) es, At r (n - ticks es) g' := by
  induction es generalizing g n with
  | nil =>
    intro g' hg'
    obtain rfl := Option.some.inj hg'
    exact h
  | cons e es ih =>
    intro g' hg'
    rw [ticks_cons] at hmore
    rw [run_cons] at hg'
    have hrest := halone.2
    cases hstep : stepAll items fuel (some g) e with
    | none =>
      rw [hstep] at hg'
      rw [run_none] at hg'
      cases hg'
    | some g₁ =>
      rw [hstep] at hg' hrest
      have hnext := h.step (halone.1 g rfl) (by omega) hstep
      have hend := ih hnext hrest (by omega) g' hg'
      rwa [ticks_cons, Nat.add_comm, ← Nat.sub_sub]

/-- What the ticks of a run do with the item until the `k`-th, in which it decays. -/
def DecaysAt (items : ℕ → ItemType) (fuel r k : ℕ) (g : Game) (es : List Event) : Prop :=
  ∀ pre w post, es = pre ++ .checkDecay w :: post → ticks pre < k → ∀ g' ∈ run (stepAll items fuel) (some g) pre,
      Held r g' ∧ ∀ c ∈ decayedIn items fuel w g' r, c = decide (ticks pre + 1 = k)

theorem At.decaysAt (h : At r n g) (halone : Alone items fuel r g es) : DecaysAt items fuel r n g es := by
  intro pre w post heq hmore g' hg'
  unfold Alone at halone
  rw [heq, List.append_cons] at halone
  have hat : At r (n - ticks pre) g' := h.run halone.left.left hmore g' hg'
  have huntouched : Untouched items fuel r g' (.checkDecay w) := halone.left.last g' hg'
  obtain ⟨b, d, hwaits, -⟩ := id hat
  refine ⟨hwaits.held, fun c hc => ?_⟩
  rw [(hat.tick huntouched).1 c hc]
  exact decide_eq_decide.mpr (by omega)

theorem Alone.tail {g₁ : Game} (h : Alone items fuel r g (e :: es))
    (hstep : g₁ ∈ stepAll items fuel (some g) e) : Alone items fuel r g₁ es := by
  have hrest := h.2
  rw [show stepAll items fuel (some g) e = some g₁ from hstep] at hrest
  exact hrest

theorem DecaysAt.cons {k : ℕ} (hocc : Held r g)
    (htail : ∀ g₁ ∈ stepAll items fuel (some g) e, DecaysAt items fuel r k g₁ es)
    (hfirst : ∀ w, e = .checkDecay w → k ≠ 0 ∧ ∀ c ∈ decayedIn items fuel w g r, c = false) :
    DecaysAt items fuel r (k + if e.isTick then 1 else 0) g (e :: es) := by
  intro pre w post heq hmore g' hg'
  cases pre with
  | nil =>
    obtain ⟨rfl, -⟩ := List.cons.inj heq
    obtain rfl := Option.some.inj hg'
    obtain ⟨hne, hnot⟩ := hfirst w rfl
    refine ⟨hocc, fun c hc => ?_⟩
    rw [hnot c hc, eq_comm, decide_eq_false_iff_not]
    intro hone
    exact hne (Nat.succ.inj hone).symm
  | cons e' pre =>
    obtain ⟨rfl, hes⟩ := List.cons.inj heq
    rw [run_cons] at hg'
    cases hstep : stepAll items fuel (some g) e with
    | none =>
      rw [hstep, run_none] at hg'
      cases hg'
    | some g₁ =>
      rw [hstep] at hg'
      rw [ticks_cons] at hmore ⊢
      obtain ⟨hocc, hdecayed⟩ := htail g₁ hstep pre w post hes (by omega) g' hg'
      refine ⟨hocc, fun c hc => ?_⟩
      rw [hdecayed c hc]
      exact decide_eq_decide.mpr (by omega)

/-- The first tick or clean-up puts a queued item into its bucket. -/
theorem Queued.decaysAt (h : Queued r d g) (hpos : 1 ≤ d) (hlt : d < 2 ^ 31) (halone : Alone items fuel r g es) :
    ∃ k, (k = (if 1000 ≤ d then 4 else 1) + restTicks d ∨ k = (if 1000 ≤ d then 4 else 1) + restTicks d + 1) ∧
      DecaysAt items fuel r k g es := by
  have hbucket : ∀ last, ticksLeft last (if 1000 ≤ d then last else last + 1) d ≠ 0 := by
    intro last
    unfold ticksLeft
    omega
  induction es generalizing g with
  | nil =>
    refine ⟨_, .inl rfl, fun pre w post heq => ?_⟩
    cases pre <;> cases heq
  | cons e es ih =>
    cases htick : e.isTick with
    | true =>
      cases e with
      | checkDecay w =>
        refine ⟨_, .inr rfl, .cons h.held (fun g₁ hg₁ => ?_) fun w' hw => ?_⟩
        · have hat : At r _ g₁ := ⟨_, d, h.tick hg₁, hpos, hlt, ticksLeft_queued _ d⟩
          exact hat.decaysAt (halone.tail hg₁)
        · refine ⟨ticksLeft_queued g.lastBucket d ▸ hbucket _, decayedIn_of_not_mem ?_⟩
          exact List.count_eq_zero.mp (h.buckets _)
      | _ => cases htick
    | false =>
      have hnot : ∀ w, e ≠ .checkDecay w := by
        intro w heq
        rw [heq] at htick
        cases htick
      have hone : ∀ k, DecaysAt items fuel r (k + if e.isTick then 1 else 0) g (e :: es) →
          DecaysAt items fuel r k g (e :: es) := by
        intro k hk
        rwa [htick, if_neg Bool.false_ne_true, Nat.add_zero] at hk
      by_cases hclean : e = .cleanup
      · subst hclean
        refine ⟨_, .inl rfl, hone _ (.cons h.held (fun g₁ hg₁ => ?_) fun w hw => absurd hw (hnot w))⟩
        have hwaits := h.cleanup
        rw [← cleanup_lastBucket] at hwaits
        obtain rfl := Option.some.inj hg₁
        have hat : At r _ (Decay.cleanup g) := ⟨_, d, hwaits, hpos, hlt, ticksLeft_queued _ d⟩
        exact hat.decaysAt (halone.tail rfl)
      · cases hstep : stepAll items fuel (some g) e with
        | none =>
          refine ⟨_, .inl rfl, hone _ (.cons h.held (fun g₁ hg₁ => ?_) fun w hw => absurd hw (hnot w))⟩
          rw [hstep] at hg₁
          cases hg₁
        | some g₁ =>
          have hspares := step_spares h.known htick hclean (halone.1 g rfl) hstep
          obtain ⟨k, hk, hrest⟩ := ih (h.spares hspares) (halone.tail hstep)
          refine ⟨k, hk, hone k (.cons h.held (fun g₂ hg₂ => ?_) fun w hw => absurd hw (hnot w))⟩
          rw [hstep] at hg₂
          obtain rfl := Option.some.inj hg₂
          exact hrest

theorem Out.step (h : Out r g) (huntouched : Untouched items fuel r g e) (hg' : g' ∈ step items fuel g e) :
    Out r g' := by
  cases htick : e.isTick with
  | true =>
    cases e with
    | checkDecay w =>
      obtain ⟨g₁, hg₁, hlast⟩ := Option.bind_eq_some_iff.mp hg'
      obtain rfl := Option.some.inj hlast
      have hout : r ∉ g.decayItems (g.lastBucket + 1) := List.count_eq_zero.mp (h.buckets _)
      have hrest := h.spares (bucket_spares _ hout h.known hg₁)
      exact Out.cleanup ⟨hrest.known, hrest.queue, hrest.buckets⟩
    | _ => cases htick
  | false =>
    by_cases heq : e = .cleanup
    · subst heq
      obtain rfl := Option.some.inj hg'
      exact h.cleanup
    · exact h.spares (step_spares h.known htick heq huntouched hg')

theorem Out.run (h : Out r g) (halone : Alone items fuel r g es) :
    ∀ g' ∈ run (stepAll items fuel) (some g) es, Out r g' := by
  have hstep : ∀ (s : Option Game) e, (∀ g ∈ s, Out r g) → (∀ g ∈ s, Untouched items fuel r g e) →
      ∀ g' ∈ stepAll items fuel s e, Out r g' := by
    intro s e hs hok g' hg'
    obtain ⟨g₀, hg₀, hg'⟩ := Option.bind_eq_some_iff.mp hg'
    exact (hs g₀ hg₀).step (hok g₀ hg₀) hg'
  refine inv_run hstep (fun g' hg' => ?_) halone
  obtain rfl := Option.some.inj hg'
  exact h

theorem startDecay_queues (hr : r < g.next) (hnew : g.occurrences r = 0) (hcan : (g.item r).canDecay items = true)
    (hstate : (g.item r).getDecaying ≠ .decayingTrue) (hpos : 1 ≤ (g.item r).getDuration)
    (hg' : g' ∈ startDecay items w fuel g r) : Queued r (g.item r).getDuration g' := by
  cases fuel with
  | zero => cases hg'
  | succ fuel =>
    have hzero := Nat.add_eq_zero_iff.mp hnew
    unfold startDecay at hg'
    simp only [hcan, Bool.not_true, Bool.false_eq_true, if_false, hstate] at hg'
    rw [if_pos (show 0 < (g.item r).getDuration from hpos)] at hg'
    obtain rfl := Option.some.inj hg'
    have hout : Out r g := ⟨hr, hzero.1, fun b => Finset.sum_eq_zero_iff.mp hzero.2 b (Finset.mem_univ b)⟩
    exact hout.queued

/-- The ticks of a run before the `k`-th do not decay the item, which is in the wheel once, and the
`k`-th does: as far as its parent lets it, it is gone then or what it decays to. With that it is out of
the wheel and no later tick decays it, unless it has started to decay anew as what it has become. -/
structure OnTime (items : ℕ → ItemType) (fuel r k : ℕ) (g : Game) (es : List Event) : Prop where
  turn : DecaysAt items fuel r k g es
  /-- a tick that returns has come to the item -/
  reached : ∀ pre w post, es = pre ++ .checkDecay w :: post →
    ∀ g' ∈ run (stepAll items fuel) (some g) pre, (checkDecay items fuel w g').isSome = true →
      (decayedIn items fuel w g' r).isSome = true
  decays : ∀ pre w post, es = pre ++ .checkDecay w :: post → ticks pre + 1 = k →
    ∀ g' ∈ run (stepAll items fuel) (some g) pre, ∀ g'' ∈ checkDecay items fuel w g',
      (Willing items w r (g'.item r) → Decayed items (g'.item r) (g''.item r)) ∧
        (Out r g'' ∨ ∃ b d, Waits r b d g'' ∧ 1 ≤ d)
  once : ∀ pre mid w post, es = pre ++ mid ++ .checkDecay w :: post →
    ∀ g' ∈ run (stepAll items fuel) (some g) pre, Out r g' →
      ∀ g'' ∈ run (stepAll items fuel) (some g') mid, decayedIn items fuel w g'' r ≠ some true

end Runs

instance (items : ℕ → ItemType) (fuel r : ℕ) (g : Game) : ∀ e, Decidable (Untouched items fuel r g e)
  | .startDecay _ q => inferInstanceAs (Decidable (q ≠ r))
  | .transformItem _ q _ _ => inferInstanceAs (Decidable (q ≠ r))
  | .setID q _ => inferInstanceAs (Decidable (q ≠ r))
  | .remove _ q => inferInstanceAs (Decidable (q ≠ r))
  | .clone _ => .isTrue trivial
  | .cleanup => .isTrue trivial
  | .checkDecay w => inferInstanceAs (Decidable (r ∈ g.decayItems (g.lastBucket + 1) →
    ∀ g' ∈ atTurn items fuel w g r, (g'.item r).canDecay items = true))

end ForgottenServer.Decay
