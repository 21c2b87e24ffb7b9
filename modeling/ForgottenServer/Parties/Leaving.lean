import ForgottenServer.Parties.Life

/-! # Who loses his party

An event takes the party away from the player who leaves it, and from all who are in it
when it is disbanded. -/
namespace ForgottenServer.Parties

variable {w : World} {p q x y u : ℕ} {P : Party}

def Party.players (P : Party) : List ℕ := P.leader :: P.memberList

/-- Whether a party is given up when a player leaves it. -/
def Party.endsWithout (P : Party) (player : ℕ) : Bool :=
  (P.players.erase player).isEmpty ||
    (P.players.erase player).length = 1 && P.inviteList.isEmpty

/-- A party that is left with its leader when an invitation is taken back. -/
def Party.EndsUninvited (P : Party) (player : ℕ) : Prop :=
  P.memberList = [] ∧ P.inviteList = [player]

instance (P : Party) (player : ℕ) : Decidable (P.EndsUninvited player) :=
  inferInstanceAs (Decidable (_ ∧ _))

def Party.uninvite (P : Party) (player : ℕ) : Party :=
  { P with inviteList := P.inviteList.erase player }

def World.Drops (w : World) : Event → ℕ → Prop
  | .revoke player invited, u => u = player ∧ ∃ p P, w.party player = some p ∧
      w.parties p = some P ∧ P.leader = player ∧ P.EndsUninvited invited
  | .leave player inFight, u => inFight = false ∧ ∃ p P, w.party player = some p ∧
      w.parties p = some P ∧ (u = player ∨ P.endsWithout player = true ∧ u ∈ P.players)
  | .logout player, u =>
    (∃ p P, w.parties p = some P ∧ P.EndsUninvited player ∧ u = P.leader) ∨
      ∃ p P, w.party player = some p ∧ w.parties p = some P ∧
        (u = player ∨ (P.uninvite player).endsWithout player = true ∧ u ∈ P.players)
  | _, _ => False

/-! ## Invitations that are taken back -/

section Uninvited

theorem erase_eq_nil_iff (hy : y ∈ P.inviteList) : P.inviteList.erase y = [] ↔ P.inviteList = [y] := by
  rw [List.erase_eq_nil_iff]
  constructor
  · rintro (h | h)
    · rw [h] at hy
      cases hy
    · exact h
  · exact .inr

theorem uninvite_empty_iff (hy : y ∈ P.inviteList) : (P.uninvite y).empty = true ↔ P.EndsUninvited y := by
  rw [empty_iff, Party.uninvite, Party.EndsUninvited, erase_eq_nil_iff hy]

theorem uninvite_of_not_mem (hy : y ∉ P.inviteList) : P.uninvite y = P := by
  rw [Party.uninvite, List.erase_of_not_mem hy]

theorem removeInvite_eq (hP : w.parties p = some P) (hy : y ∈ P.inviteList) (removeFromPlayer : Bool) :
    w.removeInvite p y removeFromPlayer =
      let w' := if removeFromPlayer then
          (w.putParty p (some (P.uninvite y))).removePartyInvitation y p
        else w.putParty p (some (P.uninvite y))
      if (P.uninvite y).empty then w'.disband p else w' := by
  rw [World.removeInvite, hP]
  exact if_neg (not_not.mpr hy)

/-- The leader of a party that ends loses it, and nobody else loses his. -/
theorem removeInvite_effect (hP : w.parties p = some P) (hy : y ∈ P.inviteList) (removeFromPlayer : Bool) :
    (w.removeInvite p y removeFromPlayer).party =
        (if P.EndsUninvited y then Function.update w.party P.leader none else w.party) ∧
      (w.removeInvite p y removeFromPlayer).parties = Function.update w.parties p
        (if P.EndsUninvited y then none else some (P.uninvite y)) := by
  rw [removeInvite_eq hP hy]
  dsimp only
  generalize hw' : (if removeFromPlayer then
    (w.putParty p (some (P.uninvite y))).removePartyInvitation y p
    else w.putParty p (some (P.uninvite y))) = w'
  have hparty : w'.party = w.party := by
    rw [← hw']
    split <;> rfl
  have hparties : w'.parties = Function.update w.parties p (some (P.uninvite y)) := by
    rw [← hw']
    split <;> rfl
  by_cases hends : P.EndsUninvited y
  · have hleft : w'.parties p = some (P.uninvite y) := by rw [hparties, Function.update_self]
    rw [if_pos ((uninvite_empty_iff hy).mpr hends), if_pos hends, if_pos hends, disband_eq hleft]
    constructor
    · funext u
      have hnobody : u ∉ (P.uninvite y).memberList := by
        rw [Party.uninvite, hends.1]
        exact List.not_mem_nil
      by_cases hu : u = P.leader
      · rw [hu, Function.update_self]
        exact if_pos (.inl rfl)
      · rw [Function.update_of_ne hu, ← hparty]
        exact if_neg (not_or.mpr ⟨hu, hnobody⟩)
    · change Function.update w'.parties p none = _
      rw [hparties, Function.update_idem]
  · rw [if_neg fun h => hends ((uninvite_empty_iff hy).mp h), if_neg hends, if_neg hends]
    exact ⟨hparty, hparties⟩

/-- The parties that a player was invited to, after he took back some invitations. -/
structure Uninvited (w w' : World) (x : ℕ) (l : List ℕ) : Prop where
  ended : ∀ p ∈ l, ∀ P, w.parties p = some P → P.EndsUninvited x → w'.party P.leader = none
  kept : ∀ u, (∀ p ∈ l, ∀ P, w.parties p = some P → P.EndsUninvited x → u ≠ P.leader) → w'.party u = w.party u
  lost : ∀ u, w.party u = none → w'.party u = none
  left : ∀ p ∈ l, ∀ P, w.parties p = some P → ¬ P.EndsUninvited x → w'.parties p = some (P.uninvite x)
  other : ∀ p, p ∉ l → w'.parties p = w.parties p

theorem uninvited_foldl (l : List ℕ) (w : World) (hl : l.Nodup)
    (hmem : ∀ p ∈ l, ∃ P, w.parties p = some P ∧ x ∈ P.inviteList) :
    Uninvited w (l.foldl (fun w party => w.removeInvite party x false) w) x l := by
  induction l generalizing w with
  | nil =>
    refine ⟨fun p hp => ?_, fun _ _ => rfl, fun _ h => h, fun p hp => ?_, fun _ _ => rfl⟩
    · cases hp
    · cases hp
  | cons p l ih =>
    obtain ⟨hnot, hl'⟩ := List.nodup_cons.mp hl
    obtain ⟨⟨P, hP, hx⟩, hrest⟩ := List.forall_mem_cons.mp hmem
    obtain ⟨hparty, hparties⟩ := removeInvite_effect hP hx false
    have hother : ∀ q, q ≠ p → (w.removeInvite p x false).parties q = w.parties q := by
      intro q hq
      rw [hparties, Function.update_of_ne hq]
    have hne : ∀ q ∈ l, q ≠ p := fun q hq heq => hnot (heq ▸ hq)
    have hsame : ∀ q ∈ l, (w.removeInvite p x false).parties q = w.parties q :=
      fun q hq => hother q (hne q hq)
    obtain ⟨hended, hkept, hlost, hleft, hothers⟩ := ih (w.removeInvite p x false) hl'
      fun q hq => hsame q hq ▸ hrest q hq
    refine ⟨fun q hq Q hQ hends => ?_, fun u hu => ?_, fun u hu => ?_, fun q hq Q hQ hends => ?_, fun q hq => ?_⟩
    · rcases List.mem_cons.mp hq with rfl | hq
      · obtain rfl : P = Q := Option.some.inj (hP.symm.trans hQ)
        refine hlost _ ?_
        rw [hparty, if_pos hends, Function.update_self]
      · exact hended q hq Q ((hsame q hq).trans hQ) hends
    · obtain ⟨hu, hu'⟩ := List.forall_mem_cons.mp hu
      rw [List.foldl_cons, hkept u fun q hq Q hQ => hu' q hq Q ((hsame q hq).symm.trans hQ), hparty]
      split
      · rename_i hends
        rw [Function.update_of_ne (hu P hP hends)]
      · rfl
    · refine hlost u ?_
      rw [hparty]
      split
      · rw [Function.update_apply]
        split
        · rfl
        · exact hu
      · exact hu
    · rcases List.mem_cons.mp hq with rfl | hq
      · obtain rfl : P = Q := Option.some.inj (hP.symm.trans hQ)
        rw [List.foldl_cons, hothers q hnot, hparties, Function.update_self, if_neg hends]
      · exact hleft q hq Q ((hsame q hq).trans hQ) hends
    · obtain ⟨hqp, hql⟩ := not_or.mp (List.mem_cons.not.mp hq)
      rw [List.foldl_cons, hothers q hql, hother q hqp]

theorem Linked.uninvited (h : Linked w) (x : ℕ) : Uninvited w (w.clearPartyInvitations x) x (w.invitePartyList x) := by
  have hfold := uninvited_foldl (w.invitePartyList x) w (h.invitations x) fun p hp => (h.invited x p).mp hp
  exact ⟨hfold.ended, hfold.kept, hfold.lost, hfold.left, hfold.other⟩

end Uninvited

/-! ## Players who leave -/

section Left

theorem disband_party (hP : w.parties p = some P) (u : ℕ) :
    (w.disband p).party u = if u ∈ P.players then none else w.party u := by
  rw [disband_eq hP, Party.players]
  simp only [List.mem_cons]

theorem leaveParty_eq (hP : w.parties p = some P) (hx : w.party x = some p) :
    w.leaveParty p x = (w.replaceLeader p x P).2.eraseMember p x (w.replaceLeader p x P).1 := by
  rw [World.leaveParty, hP]
  dsimp only
  rw [if_neg fun h => h.1 hx]

theorem leader_left_party (h : Linked w) (hP : w.parties p = some P) (hx : w.party P.leader = some p) (u : ℕ) :
    (w.leaveParty p P.leader).party u =
      if u = P.leader ∨ P.endsWithout P.leader = true ∧ u ∈ P.players then none
      else w.party u := by
  have hrest : P.players.erase P.leader = P.memberList := List.erase_cons_head ..
  -- a missing leader takes the party with him
  have hmissing : (w.eraseMember p P.leader true).party u =
      if u ∈ P.players then none else w.party u := by
    rw [eraseMember_eq hP]
    dsimp only
    rw [Bool.true_or, if_pos rfl, List.erase_of_not_mem (h.leader p P hP), disband_setParty hP, disband_party hP]
  have hmissing' : P.endsWithout P.leader = true → (w.eraseMember p P.leader true).party u =
      if u = P.leader ∨ P.endsWithout P.leader = true ∧ u ∈ P.players then none
      else w.party u := by
    intro hends
    rw [hmissing]
    have hiff : u ∈ P.players ↔ u = P.leader ∨ P.endsWithout P.leader = true ∧ u ∈ P.players := by
      constructor
      · exact fun hu => .inr ⟨hends, hu⟩
      · rintro (rfl | hu)
        · exact List.mem_cons_self
        · exact hu.2
    exact if_congr hiff rfl rfl
  rw [leaveParty_eq hP hx]
  cases hlist : P.memberList with
  | nil =>
    have hreplace : w.replaceLeader p P.leader P = (true, w) := by
      rw [World.replaceLeader, if_pos rfl, hlist]
    rw [hreplace]
    exact hmissing' (by rw [Party.endsWithout, hrest, hlist]; rfl)
  | cons front rest =>
    by_cases hlast : rest = [] ∧ P.inviteList = []
    · have hreplace : w.replaceLeader p P.leader P = (true, w) := by
        rw [World.replaceLeader, if_pos rfl, hlist]
        exact if_pos hlast
      rw [hreplace]
      exact hmissing' (by rw [Party.endsWithout, hrest, hlist, hlast.1, hlast.2]; rfl)
    · have hends : P.endsWithout P.leader = false := by
        rw [Party.endsWithout, hrest, hlist, List.isEmpty_cons, Bool.false_or, Bool.and_eq_false_iff]
        by_cases hnil : rest = []
        · exact .inr (by simpa using fun h => hlast ⟨hnil, h⟩)
        · exact .inl (by simpa using hnil)
      have hpass := @passPartyLeadership_eq w p front P h hP (by rw [hlist]; exact List.mem_cons_self)
      have hreplace : w.replaceLeader p P.leader P = (false, w.putParty p
          (some { P with leader := front, memberList := P.leader :: rest })) := by
        rw [hlist, List.erase_cons_head] at hpass
        rw [World.replaceLeader, if_pos rfl, hlist, ← hpass]
        exact if_neg hlast
      have hget : (w.putParty p (some { P with leader := front, memberList := P.leader :: rest
          })).parties p = some { P with leader := front, memberList := P.leader :: rest } :=
        Function.update_self ..
      have hfull : ({ P with leader := front, memberList := rest } : Party).empty = false := by
        rw [Bool.eq_false_iff]
        exact fun h => hlast (empty_iff.mp h)
      rw [hreplace, eraseMember_eq hget]
      dsimp only
      rw [List.erase_cons_head, Bool.false_or, hfull, if_neg Bool.false_ne_true, hends]
      simp [World.setParty, World.putParty, Function.update_apply]

theorem member_left_party (h : Linked w) (hP : w.parties p = some P) (hx : w.party x = some p)
    (hmem : x ∈ P.memberList) (u : ℕ) :
    (w.leaveParty p x).party u = if u = x ∨ P.endsWithout x = true ∧ u ∈ P.players then none else w.party u := by
  have hne : P.leader ≠ x := fun heq => h.leader p P hP (heq ▸ hmem)
  have hrest : P.players.erase x = P.leader :: P.memberList.erase x :=
    List.erase_cons_tail (by simpa using hne)
  have hreplace : w.replaceLeader p x P = (false, w) := by rw [World.replaceLeader, if_neg hne]
  have hends : P.endsWithout x = ({ P with memberList := P.memberList.erase x } : Party).empty := by
    rw [Party.endsWithout, hrest, List.isEmpty_cons, Bool.false_or, Party.empty, List.length_cons]
    cases P.memberList.erase x <;> rfl
  have hput : ((w.putParty p (some { P with memberList := P.memberList.erase x })).setParty x
      none).parties p = some { P with memberList := P.memberList.erase x } := Function.update_self ..
  rw [leaveParty_eq hP hx, hreplace, eraseMember_eq hP]
  dsimp only
  rw [Bool.false_or, hends]
  have hleft : ((w.putParty p (some { P with memberList := P.memberList.erase x })).setParty x
      none).party u = if u = x then none else w.party u := Function.update_apply ..
  have hplayers : u ≠ x → (u ∈ ({ P with memberList := P.memberList.erase x } : Party).players ↔
      u ∈ P.players) := by
    intro hu
    rw [Party.players, Party.players, List.mem_cons, List.mem_cons, List.mem_erase_of_ne hu]
  by_cases hempty : ({ P with memberList := P.memberList.erase x } : Party).empty = true
  · rw [if_pos hempty, disband_party hput, hleft]
    by_cases hu : u = x
    · rw [if_pos hu, ite_self, if_pos (.inl hu)]
    · rw [if_neg hu]
      refine if_congr ((hplayers hu).trans ⟨fun h => .inr ⟨hempty, h⟩, fun h => ?_⟩) rfl rfl
      exact (h.resolve_left hu).2
  · rw [if_neg hempty, hleft]
    refine if_congr ⟨fun hu => .inl hu, fun h => ?_⟩ rfl rfl
    exact h.resolve_right fun h => hempty h.1

theorem leaveParty_party (h : Linked w) (hP : w.parties p = some P) (hx : w.party x = some p) (u : ℕ) :
    (w.leaveParty p x).party u = if u = x ∨ P.endsWithout x = true ∧ u ∈ P.players then none else w.party u := by
  rcases (h.pointer_iff hP x).mp hx with rfl | hmem
  · exact leader_left_party h hP hx u
  · exact member_left_party h hP hx hmem u

end Left

/-! ## What the events do -/

section Events

theorem invitePlayer_party (w : World) (p y : ℕ) : (w.invitePlayer p y).party = w.party := by
  unfold World.invitePlayer
  split
  · rfl
  · split
    · rfl
    · dsimp only
      unfold World.addPartyInvitation
      split <;> rfl

theorem passPartyLeadership_party (w : World) (p y : ℕ) : (w.passPartyLeadership p y).party = w.party := by
  unfold World.passPartyLeadership
  split
  · rfl
  · split <;> rfl

theorem joinParty_party (w : World) (p : ℕ) (hne : u ≠ y) : (w.joinParty p y).party u = w.party u := by
  unfold World.joinParty
  split
  · rfl
  · split
    · rfl
    · exact Function.update_of_ne hne ..

theorem clear_party (h : Linked w) (x u : ℕ) : ((∃ p P, w.parties p = some P ∧ P.EndsUninvited x ∧ u = P.leader) →
        (w.clearPartyInvitations x).party u = none) ∧
      ((¬ ∃ p P, w.parties p = some P ∧ P.EndsUninvited x ∧ u = P.leader) →
        (w.clearPartyInvitations x).party u = w.party u) := by
  have hcleared := h.uninvited x
  constructor
  · rintro ⟨p, P, hP, hends, rfl⟩
    have hmem : p ∈ w.invitePartyList x := by
      rw [h.invited_iff hP, hends.2]
      exact List.mem_singleton_self x
    exact hcleared.ended p hmem P hP hends
  · intro hnot
    exact hcleared.kept u fun p _ P hP hends hu => hnot ⟨p, P, hP, hends, hu⟩

theorem clear_parties (h : Linked w) (hP : w.parties p = some P) (hends : ¬ P.EndsUninvited x) :
    (w.clearPartyInvitations x).parties p = some (P.uninvite x) := by
  have hcleared := h.uninvited x
  by_cases hmem : p ∈ w.invitePartyList x
  · exact hcleared.left p hmem P hP hends
  · rw [hcleared.other p hmem, hP, uninvite_of_not_mem]
    exact fun hx => hmem ((h.invited_iff hP x).mpr hx)

theorem revoke_party {player invited : ℕ} (hu : w.party u = some p) : (w.Drops (.revoke player invited) u →
        (w.playerRevokePartyInvitation player invited).party u = none) ∧
      (¬ w.Drops (.revoke player invited) u → (w.playerRevokePartyInvitation player invited).party u = some p) := by
  constructor
  · rintro ⟨rfl, q, P, hq, hP, hlead, hends⟩
    have hmem : invited ∈ P.inviteList := by
      rw [hends.2]
      exact List.mem_singleton_self invited
    have hleads : w.leads u q = true := (leads_iff hP).mpr hlead
    have hinviting : w.isInviting u invited = true := by
      simp [World.isInviting, hq, hP, hlead, hmem]
    simp only [World.playerRevokePartyInvitation, hq, hleads, hinviting, Bool.not_true, Bool.false_eq_true, if_false]
    rw [(removeInvite_effect hP hmem true).1, if_pos hends, hlead, Function.update_self]
  · intro hdrops
    rw [World.playerRevokePartyInvitation]
    split
    · exact hu
    rename_i q hq
    split
    · exact hu
    rename_i hleads
    split
    · exact hu
    rename_i hinviting
    obtain ⟨q', P, hq', hP, hlead, hmem⟩ := isInviting_iff (by simpa using hinviting)
    obtain rfl := Option.some.inj (hq.symm.trans hq')
    rw [(removeInvite_effect hP hmem true).1]
    split
    · rename_i hends
      have hne : u ≠ P.leader := fun heq =>
        hdrops ⟨heq.trans hlead, q, P, hq, hP, hlead, hends⟩
      rw [Function.update_of_ne hne]
      exact hu
    · exact hu

theorem leave_party (h : Linked w) {player : ℕ} {inFight : Bool} (hu : w.party u = some p) :
    (w.Drops (.leave player inFight) u → (w.playerLeaveParty player inFight).party u = none) ∧
      (¬ w.Drops (.leave player inFight) u → (w.playerLeaveParty player inFight).party u = some p) := by
  constructor
  · rintro ⟨rfl, q, P, hq, hP, hlost⟩
    simp only [World.playerLeaveParty, hq, Bool.false_eq_true, if_false]
    rw [leaveParty_party h hP hq, if_pos hlost]
  · intro hdrops
    rw [World.playerLeaveParty]
    split
    · exact hu
    rename_i q hq
    split
    · exact hu
    rename_i hfight
    obtain ⟨P, hP, -⟩ := member_or_leader h hq
    rw [leaveParty_party h hP hq, if_neg, hu]
    exact fun hlost => hdrops ⟨by simpa using hfight, q, P, hq, hP, hlost⟩

/-- A party that a player is in stays when he takes back his invitations, if it does not end with
them. -/
theorem clear_own (h : Linked w) (hx : w.party x = some p) (hP : w.parties p = some P) (hends : ¬ P.EndsUninvited x) :
    (w.clearPartyInvitations x).party x = some p ∧ (w.clearPartyInvitations x).parties p = some (P.uninvite x) := by
  refine ⟨?_, clear_parties h hP hends⟩
  rw [(clear_party h x x).2, hx]
  rintro ⟨q, Q, hQ, hends', hlead⟩
  have hq : w.party x = some q := (h.pointer_iff hQ x).mpr (.inl hlead)
  obtain rfl := Option.some.inj (hx.symm.trans hq)
  obtain rfl := Option.some.inj (hP.symm.trans hQ)
  exact hends hends'

theorem leader_of_ends (h : Linked w) (hx : w.party x = some p) (hP : w.parties p = some P)
    (hends : P.EndsUninvited y) : x = P.leader := by
  rcases (h.pointer_iff hP x).mp hx with hlead | hmem
  · exact hlead
  · rw [hends.1] at hmem
    cases hmem

theorem logout_party (h : Inv w) {player : ℕ} (hu : w.party u = some p) :
    (w.Drops (.logout player) u → (w.logout player).party u = none) ∧
      (¬ w.Drops (.logout player) u → (w.logout player).party u = some p) := by
  have hcleared := (h.clearPartyInvitations player).toLinked
  obtain ⟨hended, hkept⟩ := clear_party h.toLinked player u
  constructor
  · intro hdrops
    by_cases hends : ∃ p P, w.parties p = some P ∧ P.EndsUninvited player ∧ u = P.leader
    · have hu' := hended hends
      rw [World.logout]
      split
      · exact hu'
      · rename_i q hq
        obtain ⟨Q, hQ, -⟩ := member_or_leader hcleared hq
        rw [leaveParty_party hcleared hQ hq, hu', ite_self]
    · obtain ⟨q, P, hq, hP, hleft⟩ := hdrops.resolve_left hends
      have hends' : ¬ P.EndsUninvited player := by
        intro h'
        have hlead := leader_of_ends h.toLinked hq hP h'
        refine hends ⟨q, P, hP, h', ?_⟩
        rcases hleft with hleft | ⟨-, hmem⟩
        · exact hleft.trans hlead
        · rw [Party.players, h'.1, List.mem_singleton] at hmem
          exact hmem
      obtain ⟨hq', hP'⟩ := clear_own h.toLinked hq hP hends'
      simp only [World.logout, hq']
      rw [leaveParty_party hcleared hP' hq']
      exact if_pos hleft
  · intro hdrops
    obtain ⟨hstays, hleaves⟩ := not_or.mp hdrops
    have hu' := (hkept hstays).trans hu
    rw [World.logout]
    split
    · exact hu'
    rename_i q hq
    obtain ⟨Q, hQ, -⟩ := member_or_leader hcleared hq
    have hq' : w.party player = some q := by
      by_contra hne
      obtain ⟨hgone, hsame⟩ := clear_party h.toLinked player player
      by_cases hends : ∃ p P, w.parties p = some P ∧ P.EndsUninvited player ∧ player = P.leader
      · rw [hgone hends] at hq
        cases hq
      · exact hne ((hsame hends).symm.trans hq)
    obtain ⟨P, hP, -⟩ := member_or_leader h.toLinked hq'
    have hends : ¬ P.EndsUninvited player := by
      intro h'
      have hlead := leader_of_ends h.toLinked hq' hP h'
      rw [(clear_party h.toLinked player player).1 ⟨q, P, hP, h', hlead⟩] at hq
      cases hq
    obtain rfl := Option.some.inj ((clear_own h.toLinked hq' hP hends).2.symm.trans hQ)
    rw [leaveParty_party hcleared hQ hq, if_neg, hu']
    exact fun hlost => hleaves ⟨q, P, hq', hP, hlost⟩

theorem drops_iff (h : Inv w) (event : Event) (hu : w.party u = some p) :
    (w.Drops event u → (w.step event).party u = none) ∧ (¬ w.Drops event u → (w.step event).party u = some p) := by
  cases event with
  | invite player invited address =>
    refine ⟨fun hdrops => False.elim hdrops, fun _ => ?_⟩
    rw [World.step, World.playerInviteToParty]
    split
    · exact hu
    split
    · exact hu
    split
    · exact hu
    split
    · rename_i hnone
      have hne : u ≠ player := by
        rintro rfl
        rw [hnone] at hu
        cases hu
      dsimp only
      rw [invitePlayer_party]
      exact (Function.update_of_ne hne ..).trans hu
    split
    · exact hu
    · rw [invitePlayer_party]
      exact hu
  | join player leader =>
    refine ⟨fun hdrops => False.elim hdrops, fun _ => ?_⟩
    rw [World.step, World.playerJoinParty]
    split
    · exact hu
    split
    · exact hu
    split
    · exact hu
    split
    · exact hu
    rename_i hnone
    have hne : u ≠ player := by
      rintro rfl
      rw [hu] at hnone
      exact hnone rfl
    rw [joinParty_party _ _ hne]
    exact hu
  | revoke player invited => exact revoke_party hu
  | passLeadership player newLeader =>
    refine ⟨fun hdrops => False.elim hdrops, fun _ => ?_⟩
    rw [World.step, World.playerPassPartyLeadership]
    split
    · exact hu
    split
    · exact hu
    split
    · exact hu
    · rw [passPartyLeadership_party]
      exact hu
  | leave player inFight => exact leave_party h.toLinked hu
  | logout player => exact logout_party h hu

end Events
end ForgottenServer.Parties
