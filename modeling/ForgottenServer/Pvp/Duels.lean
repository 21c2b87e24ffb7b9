import ForgottenServer.Lib.Run
import Mathlib.Algebra.Ring.Nat
import Mathlib.Logic.Function.Basic

/-! # Duels

`PvPSystems.challengeDuel`, `acceptDuel`, `declineDuel`, `endDuel` and
`cleanupExpiredDuels`. A challenge is checked when it is made; the table of active
duels is written when it is accepted. Players stand for their ids. In which order
`pairs` visits the pending duels, who is online and what time it is belongs to the
call. The rating that `endDuel` updates is read by none of these functions. -/
namespace ForgottenServer.Pvp.Duels
open ForgottenServer.Lib.Run

/-- The duel entries of `PvPSystems.config`. -/
structure Config where
  duelEnabled : Bool := true
  duelRequestTimeout : ℤ := 60
  duelMinLevel : ℕ := 20
  duelCooldown : ℤ := 120

def config : Config := {}

variable {P : Type*} [DecidableEq P]

structure PendingDuel (P : Type*) where
  targetId : P
  expireTime : ℤ

structure DuelState (P : Type*) where
  pendingDuels : P → Option (PendingDuel P) := fun _ => none
  activeDuels : P → Option P := fun _ => none
  /-- the storage values `DUEL_ACTIVE` -/
  duelActive : P → ℤ := fun _ => -1
  /-- the storage values `DUEL_COOLDOWN` -/
  duelCooldown : P → ℤ := fun _ => -1

abbrev Answer := Bool × String

/-- `PvPSystems.challengeDuel`; `found` is the player of the given name. -/
def challengeDuel (name : P → String) (level : P → ℕ) (now : ℤ) (s : DuelState P) (challenger : P)
    (targetName : String) (found : Option P) : DuelState P × Answer :=
  if !config.duelEnabled then (s, false, "The duel system is currently disabled.")
  else if level challenger < config.duelMinLevel then
    (s, false, "You must be at least level " ++ toString config.duelMinLevel ++ " to duel.")
  else
    let cooldown := s.duelCooldown challenger
    if 0 < cooldown ∧ now < cooldown then
      (s, false, "You must wait " ++ toString (cooldown - now) ++ " seconds before challenging again.")
    else if (s.activeDuels challenger).isSome then (s, false, "You are already in a duel.")
    else if (s.pendingDuels challenger).isSome then
      (s, false, "You already have a pending duel challenge.")
    else match found with
      | none => (s, false, "Player '" ++ targetName ++ "' is not online.")
      | some target =>
        if target = challenger then (s, false, "You cannot challenge yourself.")
        else if level target < config.duelMinLevel then
          (s, false, name target ++ " is below the minimum duel level.")
        else if (s.activeDuels target).isSome then
          (s, false, name target ++ " is already in a duel.")
        else
          let duel := { targetId := target, expireTime := now + config.duelRequestTimeout }
          ({ s with pendingDuels := Function.update s.pendingDuels challenger (some duel) }, true,
            "Duel challenge sent to " ++ name target ++ ". Waiting for response...")

/-- The first challenge of the target that `pairs` comes to. -/
def challengeOf (s : DuelState P) (target : P) (order : List P) (live : PendingDuel P → Bool) : Option P :=
  order.find? fun c =>
    match s.pendingDuels c with
    | some duel => duel.targetId = target && live duel
    | none => false

def dropPending (s : DuelState P) (challengerId : P) : DuelState P :=
  { s with pendingDuels := Function.update s.pendingDuels challengerId none }

def startDuel (s : DuelState P) (challenger target : P) : DuelState P :=
  { s with
    activeDuels := Function.update (Function.update s.activeDuels challenger (some target)) target (some challenger)
    duelActive := Function.update (Function.update s.duelActive challenger 1) target 1 }

/-- `PvPSystems.acceptDuel`. -/
def acceptDuel (online : P → Bool) (now : ℤ) (s : DuelState P) (target : P) (order : List P) : DuelState P × Answer :=
  match challengeOf s target order fun duel => now < duel.expireTime with
  | none => (s, false, "You have no pending duel challenges.")
  | some challengerId =>
    if !online challengerId then (dropPending s challengerId, false, "The challenger is no longer online.")
    else (startDuel (dropPending s challengerId) challengerId target, true, "Duel accepted! Fight!")

/-- `PvPSystems.declineDuel`. -/
def declineDuel (s : DuelState P) (target : P) (order : List P) : DuelState P × Answer :=
  match challengeOf s target order fun _ => true with
  | none => (s, false, "You have no pending duel challenges.")
  | some challengerId => (dropPending s challengerId, true, "Duel challenge declined.")

/-- `PvPSystems.endDuel`. -/
def endDuel (now : ℤ) (s : DuelState P) (loser winner : P) : DuelState P :=
  let cooldownTime := now + config.duelCooldown
  { s with
    activeDuels := Function.update (Function.update s.activeDuels loser none) winner none
    duelActive := Function.update (Function.update s.duelActive loser (-1)) winner (-1)
    duelCooldown := Function.update (Function.update s.duelCooldown loser cooldownTime) winner cooldownTime }

/-- `PvPSystems.areInDuel`. -/
def areInDuel (s : DuelState P) (player1 player2 : P) : Bool := s.activeDuels player1 = some player2

/-- `PvPSystems.cleanupExpiredDuels`. -/
def cleanupExpiredDuels (now : ℤ) (s : DuelState P) : DuelState P :=
  { s with pendingDuels := fun c => (s.pendingDuels c).filter fun duel => now < duel.expireTime }

/-- A call. A duel ends for two players that `areInDuel` reports. -/
inductive Call (P : Type*)
  | challengeDuel (level : P → ℕ) (now : ℤ) (challenger : P) (targetName : String) (found : Option P)
  | acceptDuel (online : P → Bool) (now : ℤ) (target : P) (order : List P)
  | declineDuel (target : P) (order : List P)
  | endDuel (now : ℤ) (loser winner : P)
  | cleanupExpiredDuels (now : ℤ)

def step (name : P → String) (s : DuelState P) : Call P → DuelState P
  | .challengeDuel level now challenger targetName found =>
    (challengeDuel name level now s challenger targetName found).1
  | .acceptDuel online now target order => (acceptDuel online now s target order).1
  | .declineDuel target order => (declineDuel s target order).1
  | .endDuel now loser winner =>
    if areInDuel s loser winner || areInDuel s winner loser then endDuel now s loser winner else s
  | .cleanupExpiredDuels now => cleanupExpiredDuels now s

/-! ## The table -/

variable {s : DuelState P} {name : P → String}

/-- The table is a matching, and the storage values say who is in it. -/
structure Matching (s : DuelState P) : Prop where
  symmetric : ∀ a b, s.activeDuels a = some b ↔ s.activeDuels b = some a
  irreflexive : ∀ a, s.activeDuels a ≠ some a
  flagged : ∀ a, s.duelActive a = 1 ↔ (s.activeDuels a).isSome = true

/-- Nobody has challenged himself. -/
def Apart (s : DuelState P) : Prop := ∀ c duel, s.pendingDuels c = some duel → duel.targetId ≠ c

/-- The duel that is accepted is between two players without a duel, or goes on already. -/
def acceptsWell (s : DuelState P) : Call P → Prop
  | .acceptDuel online now target order =>
    ∀ c, challengeOf s target order (fun duel => now < duel.expireTime) = some c → online c = true →
      (s.activeDuels c = none ∧ s.activeDuels target = none) ∨ s.activeDuels c = some target
  | _ => True

theorem challengeOf_some {target c : P} {order : List P} {live : PendingDuel P → Bool}
    (h : challengeOf s target order live = some c) :
    ∃ duel, s.pendingDuels c = some duel ∧ duel.targetId = target := by
  have hfound := List.find?_some h
  cases hc : s.pendingDuels c with
  | none => simp [hc] at hfound
  | some duel =>
    simp only [hc, Bool.and_eq_true, decide_eq_true_eq] at hfound
    exact ⟨duel, rfl, hfound.1⟩

theorem challengeDuel_cases (level : P → ℕ) (now : ℤ) (s : DuelState P) (challenger : P)
    (targetName : String) (found : Option P) :
    (challengeDuel name level now s challenger targetName found).1 = s ∨
      ∃ duel : PendingDuel P, duel.targetId ≠ challenger ∧
        (challengeDuel name level now s challenger targetName found).1 =
          { s with pendingDuels := Function.update s.pendingDuels challenger (some duel) } := by
  unfold challengeDuel
  dsimp only
  repeat' split
  all_goals first
    | exact .inl rfl
    | rename_i target hself _ _
      exact .inr ⟨_, hself, rfl⟩

theorem acceptDuel_cases (online : P → Bool) (now : ℤ) (s : DuelState P) (target : P) (order : List P) :
    (challengeOf s target order (fun duel => now < duel.expireTime) = none ∧
      (acceptDuel online now s target order).1 = s) ∨
    ∃ c, challengeOf s target order (fun duel => now < duel.expireTime) = some c ∧
      ((online c = false ∧ (acceptDuel online now s target order).1 = dropPending s c) ∨
        online c = true ∧ (acceptDuel online now s target order).1 = startDuel (dropPending s c) c target) := by
  unfold acceptDuel
  cases hfound : challengeOf s target order (fun duel => now < duel.expireTime) with
  | none => exact .inl ⟨rfl, rfl⟩
  | some c =>
    right
    refine ⟨c, rfl, ?_⟩
    cases honline : online c with
    | false => exact .inl ⟨rfl, by simp [honline]⟩
    | true => exact .inr ⟨rfl, by simp [honline]⟩

theorem dropPending_pending {a c : P} {duel : PendingDuel P} (h : (dropPending s c).pendingDuels a = some duel) :
    s.pendingDuels a = some duel := by
  change Function.update s.pendingDuels c none a = some duel at h
  by_cases ha : a = c
  · rw [ha, Function.update_self] at h
    cases h
  · rwa [Function.update_of_ne ha] at h

/-- Only a challenge adds to the pending duels. -/
theorem step_apart (hs : Apart s) (c : Call P) : Apart (step name s c) := by
  have hdrop (x : P) : Apart (dropPending s x) := fun a duel h => hs a duel (dropPending_pending h)
  cases c with
  | challengeDuel level now challenger targetName found =>
    rcases @challengeDuel_cases P _ name level now s challenger targetName found with heq |
      ⟨duel, hself, heq⟩
    · rwa [step, heq]
    · rw [step, heq]
      intro a duel' h
      change Function.update s.pendingDuels challenger (some duel) a = some duel' at h
      by_cases ha : a = challenger
      · rw [ha, Function.update_self] at h
        rw [ha, ← Option.some.inj h]
        exact hself
      · rw [Function.update_of_ne ha] at h
        exact hs a duel' h
  | acceptDuel online now target order =>
    rcases acceptDuel_cases online now s target order with ⟨-, heq⟩ | ⟨c, -, ⟨-, heq⟩ | ⟨-, heq⟩⟩
    · rwa [step, heq]
    · rw [step, heq]
      exact hdrop c
    · rw [step, heq]
      exact hdrop c
  | declineDuel target order =>
    rw [step, declineDuel]
    split
    · exact hs
    · exact hdrop _
  | endDuel now loser winner =>
    rw [step]
    split <;> exact hs
  | cleanupExpiredDuels now => exact fun a duel h => hs a duel (Option.filter_eq_some_iff.mp h).1

omit [DecidableEq P] in
theorem Matching.congr {t : DuelState P} (hs : Matching s) (hactive : t.activeDuels = s.activeDuels)
    (hflag : t.duelActive = s.duelActive) : Matching t :=
  ⟨by rw [hactive]; exact hs.symmetric, by rw [hactive]; exact hs.irreflexive,
    by rw [hactive, hflag]; exact hs.flagged⟩

theorem update_two {α : Type*} (f : P → α) (a b x : P) (v w : α) : Function.update (Function.update f a v) b w x =
    if x = b then w else if x = a then v else f x := by
  rw [Function.update_apply, Function.update_apply]

/-- A duel that starts between two others keeps the table a matching exactly if both
are free or fight each other already. -/
theorem startDuel_matching (hs : Matching s) {c target : P} (hne : c ≠ target) : Matching (startDuel s c target) ↔
      (s.activeDuels c = none ∧ s.activeDuels target = none) ∨ s.activeDuels c = some target := by
  have hactive (x : P) : (startDuel s c target).activeDuels x =
      if x = target then some c else if x = c then some target else s.activeDuels x := update_two ..
  have hflag (x : P) : (startDuel s c target).duelActive x =
      if x = target then 1 else if x = c then 1 else s.duelActive x := update_two ..
  constructor
  · intro h
    -- whoever fought one of the two still points at him
    have hstays (x y : P) (hxy : s.activeDuels x = some y) (hx : x ≠ c) (hx' : x ≠ target) :
        (startDuel s c target).activeDuels y = some x := by
      rw [← h.symmetric, hactive, if_neg hx', if_neg hx, hxy]
    by_cases hgoes : s.activeDuels c = some target
    · exact .inr hgoes
    · left
      constructor
      · by_contra hbusy
        obtain ⟨x, hx⟩ := Option.ne_none_iff_exists'.mp hbusy
        have hback := (hs.symmetric c x).mp hx
        have hxc : x ≠ c := fun heq => hs.irreflexive c (by rw [hx, heq])
        have hxt : x ≠ target := fun heq => hgoes (by rw [hx, heq])
        have hfalse := hstays x c hback hxc hxt
        rw [hactive, if_neg hne, if_pos rfl] at hfalse
        exact hxt (Option.some.inj hfalse).symm
      · by_contra hbusy
        obtain ⟨x, hx⟩ := Option.ne_none_iff_exists'.mp hbusy
        have hback := (hs.symmetric target x).mp hx
        have hxt : x ≠ target := fun heq => hs.irreflexive target (by rw [hx, heq])
        have hxc : x ≠ c := fun heq => hgoes (by rw [heq] at hback; exact hback)
        have hfalse := hstays x target hback hxc hxt
        rw [hactive, if_pos rfl] at hfalse
        exact hxc (Option.some.inj hfalse).symm
  · intro h
    -- nobody else points at one of the two
    have hother (x y : P) (hx : x ≠ c) (hx' : x ≠ target) (hxy : s.activeDuels x = some y) : y ≠ c ∧ y ≠ target := by
      have hback := (hs.symmetric x y).mp hxy
      rcases h with ⟨hc, ht⟩ | hgoes
      · refine ⟨fun heq => ?_, fun heq => ?_⟩
        · rw [heq, hc] at hback
          cases hback
        · rw [heq, ht] at hback
          cases hback
      · have hgoes' := (hs.symmetric c target).mp hgoes
        refine ⟨fun heq => ?_, fun heq => ?_⟩
        · rw [heq, hgoes] at hback
          exact hx' (Option.some.inj hback).symm
        · rw [heq, hgoes'] at hback
          exact hx (Option.some.inj hback).symm
    have hhalf (x y : P) (hxy : (startDuel s c target).activeDuels x = some y) :
        (startDuel s c target).activeDuels y = some x := by
      by_cases hxt : x = target
      · rw [hactive, if_pos hxt] at hxy
        rw [← Option.some.inj hxy, hactive, if_neg hne, if_pos rfl, hxt]
      · by_cases hxc : x = c
        · rw [hactive, if_neg hxt, if_pos hxc] at hxy
          rw [← Option.some.inj hxy, hactive, if_pos rfl, hxc]
        · rw [hactive, if_neg hxt, if_neg hxc] at hxy
          obtain ⟨hyc, hyt⟩ := hother x y hxc hxt hxy
          rw [hactive, if_neg hyt, if_neg hyc]
          exact (hs.symmetric x y).mp hxy
    refine ⟨fun a b => ⟨hhalf a b, hhalf b a⟩, fun a ha => ?_, fun a => ?_⟩
    · rw [hactive] at ha
      split at ha
      · rename_i hat
        exact hne (hat ▸ Option.some.inj ha)
      · split at ha
        · rename_i hac
          exact hne (hac ▸ Option.some.inj ha).symm
        · exact hs.irreflexive a ha
    · rw [hactive, hflag]
      split
      · simp
      · split
        · simp
        · exact hs.flagged a

theorem endDuel_matching (hs : Matching s) {a b : P} (h : s.activeDuels a = some b) (now : ℤ) :
    Matching (endDuel now s a b) ∧ Matching (endDuel now s b a) := by
  have h' := (hs.symmetric a b).mp h
  suffices hall : ∀ a b, s.activeDuels a = some b → s.activeDuels b = some a → Matching (endDuel now s a b) from
    ⟨hall a b h h', hall b a h' h⟩
  intro a b h h'
  have hactive (x : P) : (endDuel now s a b).activeDuels x =
      if x = b then none else if x = a then none else s.activeDuels x := update_two ..
  have hflag (x : P) : (endDuel now s a b).duelActive x =
      if x = b then -1 else if x = a then -1 else s.duelActive x := update_two ..
  have hhalf (x y : P) (hxy : (endDuel now s a b).activeDuels x = some y) :
      (endDuel now s a b).activeDuels y = some x := by
    rw [hactive] at hxy
    split at hxy
    · cases hxy
    · split at hxy
      · cases hxy
      · rename_i hxb hxa
        have hback := (hs.symmetric x y).mp hxy
        have hyb : y ≠ b := fun heq => hxa (by rw [heq, h'] at hback; exact (Option.some.inj hback).symm)
        have hya : y ≠ a := fun heq => hxb (by rw [heq, h] at hback; exact (Option.some.inj hback).symm)
        rw [hactive, if_neg hyb, if_neg hya]
        exact hback
  refine ⟨fun x y => ⟨hhalf x y, hhalf y x⟩, fun x hx => ?_, fun x => ?_⟩
  · rw [hactive] at hx
    split at hx
    · cases hx
    · split at hx
      · cases hx
      · exact hs.irreflexive x hx
  · rw [hactive, hflag]
    split
    · simp
    · split
      · simp
      · exact hs.flagged x

theorem step_matching (hapart : Apart s) (hs : Matching s) (c : Call P) :
    Matching (step name s c) ↔ acceptsWell s c := by
  cases c with
  | challengeDuel level now challenger targetName found =>
    refine iff_of_true ?_ trivial
    rcases @challengeDuel_cases P _ name level now s challenger targetName found with heq |
      ⟨duel, -, heq⟩
    · rwa [step, heq]
    · rw [step, heq]
      exact hs.congr rfl rfl
  | acceptDuel online now target order =>
    rcases acceptDuel_cases online now s target order with ⟨hnone, heq⟩ | ⟨c, hsome, ⟨hoff, heq⟩ | ⟨hon, heq⟩⟩
    · rw [step, heq]
      refine iff_of_true hs fun c hc => ?_
      rw [hnone] at hc
      cases hc
    · rw [step, heq]
      refine iff_of_true (hs.congr rfl rfl) fun d hd hon => ?_
      rw [hsome] at hd
      rw [← Option.some.inj hd, hoff] at hon
      cases hon
    · obtain ⟨duel, hpending, htarget⟩ := challengeOf_some hsome
      have hne : c ≠ target := fun heq => hapart c duel hpending (htarget.trans heq.symm)
      rw [step, heq]
      have hdropped : Matching (dropPending s c) := hs.congr rfl rfl
      refine (startDuel_matching hdropped hne).trans ?_
      constructor
      · intro h d hd _
        rw [hsome] at hd
        rw [← Option.some.inj hd]
        exact h
      · exact fun h => h c hsome hon
  | declineDuel target order =>
    refine iff_of_true ?_ trivial
    rw [step, declineDuel]
    split
    · exact hs
    · exact hs.congr rfl rfl
  | endDuel now loser winner =>
    refine iff_of_true ?_ trivial
    rw [step]
    split
    · rename_i hduel
      rcases Bool.or_eq_true_iff.mp hduel with h | h
      · exact (endDuel_matching hs (of_decide_eq_true h) now).1
      · exact (endDuel_matching hs (of_decide_eq_true h) now).2
    · exact hs
  | cleanupExpiredDuels now => exact iff_of_true (hs.congr rfl rfl) trivial

omit [DecidableEq P] in
theorem start_matching : Matching ({} : DuelState P) := by
  refine ⟨fun a b => iff_of_false ?_ ?_, fun a => ?_, fun a => iff_of_false ?_ ?_⟩ <;> simp

/-- From the start of the server on, the table is a matching in every state of a run
exactly if every duel that is accepted is between two players without one, or goes on
already. -/
theorem duels_are_a_matching (name : P → String) (cs : List (Call P)) :
    (∀ pre, pre <+: cs → Matching (run (step name) {} pre)) ↔ Along (step name) acceptsWell {} cs :=
  have hall : Along (step name) (fun _ _ => True) {} cs := Along.of_forall fun _ _ => trivial
  @inv_reached_iff_of_legal _ _ (step name) (fun _ _ => True) acceptsWell Apart Matching
    (fun _ c hs _ => step_apart hs c) (fun _ c hapart hs _ => step_matching hapart hs c) _ cs
    (fun _ _ h => by cases h) start_matching hall

local instance duellistCount : NeZero 3 := ⟨by decide⟩

/-- Two players challenge a third one, who accepts both. -/
def doubleAcceptance : List (Call (Fin 3)) :=
  [.challengeDuel (fun _ => 30) 0 0 "b" (some 1), .challengeDuel (fun _ => 30) 0 2 "b" (some 1),
    .acceptDuel (fun _ => true) 1 1 [0, 2], .acceptDuel (fun _ => true) 2 1 [0, 2]]

theorem double_acceptance : ¬ Matching (run (step fun _ => "") {} doubleAcceptance) := by
  intro h
  have hfirst : (run (step fun _ => "") {} doubleAcceptance).activeDuels 0 = some 1 := by decide
  have hlast : (run (step fun _ => "") {} doubleAcceptance).activeDuels 1 = some 2 := by decide
  rw [h.symmetric, hlast] at hfirst
  exact absurd hfirst (by decide)

end ForgottenServer.Pvp.Duels
