import ForgottenServer.Parties.Links

/-! # The life of a party

Each thing that a player does to a party keeps the pointers together, whether or not
the party is disbanded on the way. -/
namespace ForgottenServer.Parties
open ForgottenServer.Lib.Run

variable {w : World} {p q x y : ℕ} {P : Party}

theorem member_or_leader (h : Linked w) (hx : w.party x = some p) :
    ∃ P, w.parties p = some P ∧ (x = P.leader ∨ x ∈ P.memberList) := (h.pointer x p).mp hx

theorem leads_iff (hP : w.parties p = some P) : w.leads x p = true ↔ P.leader = x := by
  simp [World.leads, hP]

theorem isInviting_iff (h : w.isInviting x y = true) :
    ∃ p P, w.party x = some p ∧ w.parties p = some P ∧ P.leader = x ∧ y ∈ P.inviteList := by
  unfold World.isInviting at h
  cases hparty : w.party x with
  | none => simp [hparty] at h
  | some p =>
    cases hP : w.parties p with
    | none => simp [hparty, hP] at h
    | some P =>
      have hboth : P.leader = x ∧ y ∈ P.inviteList := by simpa [hparty, hP] using h
      exact ⟨p, P, rfl, hP, hboth.1, hboth.2⟩

/-! ## Invitations -/

theorem Linked.invite (h : Linked w) (hP : w.parties p = some P) (hy : y ∉ P.inviteList) : w.invitePlayer p y =
        w.edit p { P with inviteList := P.inviteList ++ [y] } y (w.party y)
          (p :: w.invitePartyList y) ∧
      Linked (w.invitePlayer p y) := by
  have hnot : p ∉ w.invitePartyList y := fun hmem => hy ((h.invited_iff hP y).mp hmem)
  have heq : w.invitePlayer p y = w.edit p { P with inviteList := P.inviteList ++ [y] } y (w.party y)
        (p :: w.invitePartyList y) := by
    rw [World.invitePlayer, hP]
    dsimp only
    rw [if_neg hy]
    change (if p ∈ w.invitePartyList y then _ else _) = _
    rw [if_neg hnot, World.edit, Function.update_eq_self]
    rfl
  refine ⟨heq, ?_⟩
  rw [heq]
  refine h.edit (fun x => ?_) (fun _ _ => Iff.rfl) (fun x => ?_) (fun q hne => by simp [hne])
    (h.leader p P hP)
    (h.members p P hP) ?_ (List.nodup_cons.mpr ⟨hnot, h.invitations y⟩)
  · rw [Function.update_eq_self]
    exact h.pointer_iff hP x
  · by_cases hx : x = y
    · simp [hx]
    · rw [Function.update_of_ne hx, h.invited_iff hP x]
      simp [hx]
  · exact List.nodup_append.mpr ⟨h.invitees p P hP, List.nodup_singleton y, fun a ha b hb heq =>
      hy (List.mem_singleton.mp hb ▸ heq ▸ ha)⟩

theorem Inv.invitePlayer (h : Inv w) (p y : ℕ) : Inv (w.invitePlayer p y) := by
  cases hP : w.parties p with
  | none =>
    rw [World.invitePlayer, hP]
    exact h
  | some P =>
    by_cases hy : y ∈ P.inviteList
    · rw [World.invitePlayer, hP]
      dsimp only
      rw [if_pos hy]
      exact h
    · obtain ⟨heq, hlinked⟩ := h.invite hP hy
      rw [heq] at hlinked ⊢
      exact h.edit hlinked (.inr (by simp))

theorem Inv.newParty (h : Inv w) (hfree : w.parties p = none) (hx : w.party x = none) (y : ℕ) :
    Inv (((w.putParty p (some { leader := x })).setParty x (some p)).invitePlayer p y) := by
  have heq : (w.putParty p (some { leader := x })).setParty x (some p) =
      w.edit p { leader := x } x (some p) (w.invitePartyList x) := by
    rw [World.edit, Function.update_eq_self]
    rfl
  have hnobody : ∀ z, w.party z ≠ some p := fun z hz => by
    obtain ⟨P, hP, -⟩ := member_or_leader h.toLinked hz
    rw [hfree] at hP
    exact absurd hP (by simp)
  have huninvited : ∀ z, p ∉ w.invitePartyList z := fun z hz => by
    obtain ⟨P, hP, -⟩ := (h.invited z p).mp hz
    rw [hfree] at hP
    exact absurd hP (by simp)
  have hlinked : Linked (w.edit p { leader := x } x (some p) (w.invitePartyList x)) := by
    refine h.toLinked.edit (fun z => ?_) (fun q hne => ?_) (fun z => ?_) (fun _ _ => Iff.rfl) (by simp) (by simp)
      (by simp) (h.invitations x)
    · by_cases hz : z = x
      · simp [hz]
      · rw [Function.update_of_ne hz]
        simp [hz, hnobody z]
    · rw [hx]
      simpa using Ne.symm hne
    · rw [Function.update_eq_self]
      simp [huninvited z]
  obtain ⟨hinvite, hafter⟩ := hlinked.invite (edit_parties_self ..) (y := y) (by simp)
  rw [heq]
  refine ⟨hafter, fun q Q hQ => ?_⟩
  rw [hinvite] at hQ
  by_cases hq : q = p
  · rw [hq, edit_parties_self] at hQ
    obtain rfl := Option.some.inj hQ
    exact .inr (by simp)
  · rw [edit_parties_of_ne hq] at hQ
    exact h.company_edit hq hQ

theorem Inv.joinParty (h : Inv w) (hP : w.parties p = some P) (hy : y ∈ P.inviteList) (hnone : w.party y = none) :
    Inv (w.joinParty p y) := by
  have heq : w.joinParty p y =
      w.edit p { P with inviteList := P.inviteList.erase y, memberList := P.memberList ++ [y] } y
        (some p)
        ((w.invitePartyList y).filter fun q => q ≠ p) := by
    rw [World.joinParty, hP]
    dsimp only
    rw [if_neg (not_not.mpr hy)]
    rfl
  have houtside : y ≠ P.leader ∧ y ∉ P.memberList := by
    rw [← not_or, ← h.pointer_iff hP y, hnone]
    simp
  rw [heq]
  refine h.edit (h.toLinked.edit (fun x => ?_) (fun q hne => ?_) (fun x => ?_) (fun q hne => by simp [hne]) ?_ ?_
    ((h.invitees p P hP).erase y) ((h.invitations y).filter _)) (.inl (by simp))
  · by_cases hx : x = y
    · simp [hx]
    · rw [Function.update_of_ne hx, h.pointer_iff hP x]
      simp [hx]
  · rw [hnone]
    simpa using Ne.symm hne
  · by_cases hx : x = y
    · rw [hx, Function.update_self, (h.invitees p P hP).mem_erase_iff]
      simp
    · rw [Function.update_of_ne hx, h.invited_iff hP x, (h.invitees p P hP).mem_erase_iff]
      simp [hx]
  · have hleader := h.leader p P hP
    simp [hleader, houtside.1.symm]
  · exact List.nodup_append.mpr ⟨h.members p P hP, List.nodup_singleton y, fun a ha b hb heq =>
      houtside.2 (List.mem_singleton.mp hb ▸ heq ▸ ha)⟩

theorem Inv.disband_edit (h : Inv w) {P' : Party} {v : Option ℕ} {l : List ℕ} (hlinked : Linked (w.edit p P' y v l)) :
    Inv (if P'.empty then (w.edit p P' y v l).disband p else w.edit p P' y v l) := by
  split
  · exact hlinked.disband (edit_parties_self ..) fun q Q hne hQ => h.company_edit hne hQ
  · rename_i hfull
    refine h.edit hlinked ?_
    rw [empty_iff, not_and_or] at hfull
    exact hfull

theorem Inv.removeInvite (h : Inv w) (p y : ℕ) : Inv (w.removeInvite p y true) := by
  cases hP : w.parties p with
  | none =>
    rw [World.removeInvite, hP]
    exact h
  | some P =>
    rw [World.removeInvite, hP]
    dsimp only
    split
    · exact h
    have heq : (w.putParty p (some { P with inviteList := P.inviteList.erase y })).removePartyInvitation y p =
        w.edit p { P with inviteList := P.inviteList.erase y } y (w.party y)
          ((w.invitePartyList y).filter fun q => q ≠ p) := by
      rw [World.edit, Function.update_eq_self]
      rfl
    rw [if_pos rfl, heq]
    refine h.disband_edit (h.toLinked.edit (fun x => ?_) (fun _ _ => Iff.rfl) (fun x => ?_)
      (fun q hne => by simp [hne]) (h.leader p P hP) (h.members p P hP)
        ((h.invitees p P hP).erase y)
      ((h.invitations y).filter _))
    · rw [Function.update_eq_self]
      exact h.pointer_iff hP x
    · by_cases hx : x = y
      · rw [hx, Function.update_self, (h.invitees p P hP).mem_erase_iff]
        simp
      · rw [Function.update_of_ne hx, h.invited_iff hP x, (h.invitees p P hP).mem_erase_iff]
        simp [hx]

/-! ## Leaving -/

theorem passPartyLeadership_eq (h : Linked w) (hP : w.parties p = some P) (hy : y ∈ P.memberList) :
    w.passPartyLeadership p y =
      w.putParty p (some { P with leader := y, memberList := P.leader :: P.memberList.erase y }) := by
  have hne : P.leader ≠ y := fun heq => h.leader p P hP (heq ▸ hy)
  have hparty : w.party y = some p := (h.pointer_iff hP y).mpr (.inr hy)
  rw [World.passPartyLeadership, hP]
  dsimp only
  rw [if_neg (by simp [hne, hparty])]

theorem Inv.passPartyLeadership (h : Inv w) (hP : w.parties p = some P) (hy : y ∈ P.memberList) :
    Inv (w.passPartyLeadership p y) := by
  have hmembers := h.members p P hP
  have hleader := h.leader p P hP
  have heq : w.passPartyLeadership p y =
      w.edit p { P with leader := y, memberList := P.leader :: P.memberList.erase y } y (w.party y)
        (w.invitePartyList y) := by
    rw [passPartyLeadership_eq h.toLinked hP hy, World.edit, Function.update_eq_self, Function.update_eq_self]
    rfl
  rw [heq]
  refine h.edit (h.toLinked.edit (fun x => ?_) (fun _ _ => Iff.rfl) (fun x => ?_) (fun _ _ => Iff.rfl) ?_ ?_
    (h.invitees p P hP) (h.invitations y)) (.inl (by simp))
  · rw [Function.update_eq_self, h.pointer_iff hP x, List.mem_cons, hmembers.mem_erase_iff]
    by_cases hx : x = y
    · simp [hx, hy]
    · simp [hx]
  · rw [Function.update_eq_self]
    exact h.invited_iff hP x
  · rw [List.mem_cons, hmembers.mem_erase_iff, not_or]
    exact ⟨fun heq => hleader (heq ▸ hy), by simp⟩
  · exact List.nodup_cons.mpr ⟨fun hmem => hleader (List.mem_of_mem_erase hmem), hmembers.erase y⟩

theorem disband_setParty (hP : w.parties p = some P) :
    ((w.putParty p (some P)).setParty P.leader none).disband p = w.disband p := by
  have hsame : (w.putParty p (some P)).setParty P.leader none = w.setParty P.leader none := by
    have hput : w.putParty p (some P) = w := by rw [World.putParty, ← hP, Function.update_eq_self]
    rw [hput]
  have hP' : (w.setParty P.leader none).parties p = some P := hP
  rw [hsame, disband_eq hP, disband_eq hP']
  simp only [World.setParty, World.mk.injEq, and_true]
  funext x
  by_cases hx : x = P.leader
  · simp [hx]
  · simp [hx]

theorem Linked.drop (h : Linked w) (hP : w.parties p = some P) (hx : w.party x = some p) (leader : ℕ)
    (members : List ℕ) (hrest : ∀ z, z ≠ x → (z = P.leader ∨ z ∈ P.memberList ↔ z = leader ∨ z ∈ members))
    (hgone : x ≠ leader ∧ x ∉ members) (hleader : leader ∉ members) (hmembers : members.Nodup) :
    Linked (w.edit p { P with leader, memberList := members } x none (w.invitePartyList x)) := by
  refine h.edit (fun z => ?_) (fun q hne => ?_) (fun z => ?_) (fun _ _ => Iff.rfl) hleader hmembers
    (h.invitees p P hP) (h.invitations x)
  · by_cases hz : z = x
    · simp [hz, hgone.1, hgone.2]
    · rw [Function.update_of_ne hz, h.pointer_iff hP z]
      exact hrest z hz
  · rw [hx]
    simpa using Ne.symm hne
  · rw [Function.update_eq_self]
    exact h.invited_iff hP z

theorem eraseMember_eq (hP : w.parties p = some P) (x : ℕ) (missingLeader : Bool) : w.eraseMember p x missingLeader =
      let P := { P with memberList := P.memberList.erase x }
      if missingLeader || P.empty then ((w.putParty p (some P)).setParty x none).disband p
      else (w.putParty p (some P)).setParty x none := by rw [World.eraseMember, hP]

theorem Inv.leaveParty (h : Inv w) (hx : w.party x = some p) : Inv (w.leaveParty p x) := by
  obtain ⟨P, hP, hin⟩ := member_or_leader h.toLinked hx
  have hmembers := h.members p P hP
  have hleader := h.leader p P hP
  have hleave : w.leaveParty p x = (w.replaceLeader p x P).2.eraseMember p x (w.replaceLeader p x P).1 := by
    rw [World.leaveParty, hP]
    dsimp only
    rw [if_neg (by simp [hx])]
  rw [hleave]
  by_cases hlead : P.leader = x
  · subst hlead
    -- a missing leader takes the party with him
    have hmissing : Inv (w.eraseMember p P.leader true) := by
      rw [eraseMember_eq hP]
      dsimp only
      rw [Bool.true_or, if_pos rfl, List.erase_of_not_mem hleader, disband_setParty hP]
      exact h.toLinked.disband hP fun q Q _ hQ => h.company q Q hQ
    cases hlist : P.memberList with
    | nil =>
      have hreplace : w.replaceLeader p P.leader P = (true, w) := by
        rw [World.replaceLeader, if_pos rfl, hlist]
      rw [hreplace]
      exact hmissing
    | cons front rest =>
      by_cases hlast : rest = [] ∧ P.inviteList = []
      · have hreplace : w.replaceLeader p P.leader P = (true, w) := by
          rw [World.replaceLeader, if_pos rfl, hlist]
          exact if_pos hlast
        rw [hreplace]
        exact hmissing
      · rw [hlist] at hmembers hleader
        obtain ⟨hfront, hrest⟩ := List.nodup_cons.mp hmembers
        obtain ⟨hne, hout⟩ : P.leader ≠ front ∧ P.leader ∉ rest := by simpa using hleader
        have hpass := @passPartyLeadership_eq w p front P h.toLinked hP (by rw [hlist]; simp)
        rw [hlist, List.erase_cons_head] at hpass
        have hreplace : w.replaceLeader p P.leader P =
            (false, w.putParty p (some { P with leader := front, memberList := P.leader :: rest })) := by
          rw [World.replaceLeader, if_pos rfl, hlist, ← hpass]
          exact if_neg hlast
        have hdrop := h.toLinked.drop hP hx front rest (fun z hz => by simp [hlist, hz]) ⟨hne,
          hout⟩ hfront hrest
        have hget : (w.putParty p (some { P with leader := front, memberList := P.leader :: rest })).parties p =
            some { P with leader := front, memberList := P.leader :: rest } :=
              Function.update_self ..
        have heq : ((w.putParty p (some { P with leader := front, memberList := P.leader :: rest })).putParty p
            (some { P with leader := front, memberList := rest })).setParty P.leader none =
              w.edit p { P with leader := front, memberList := rest } P.leader none
                (w.invitePartyList P.leader) := by
          simp only [World.edit, World.putParty, World.setParty, Function.update_eq_self, Function.update_idem]
        rw [hreplace, eraseMember_eq hget]
        dsimp only
        rw [List.erase_cons_head, Bool.false_or, heq]
        exact h.disband_edit hdrop
  · have hmem : x ∈ P.memberList := hin.resolve_left (Ne.symm hlead)
    have hreplace : w.replaceLeader p x P = (false, w) := by rw [World.replaceLeader, if_neg hlead]
    have hdrop := h.toLinked.drop hP hx P.leader (P.memberList.erase x)
      (fun z hz => by simp [hmembers.mem_erase_iff, hz])
        ⟨Ne.symm hlead, by simp [hmembers.mem_erase_iff]⟩
      (fun hmem => hleader (List.mem_of_mem_erase hmem)) (hmembers.erase x)
    have heq : (w.putParty p (some { P with memberList := P.memberList.erase x })).setParty x none =
        w.edit p { P with memberList := P.memberList.erase x } x none (w.invitePartyList x) := by
      rw [World.edit, Function.update_eq_self]
      rfl
    rw [hreplace, eraseMember_eq hP]
    dsimp only
    rw [Bool.false_or, heq]
    exact h.disband_edit hdrop

/-! ## Logging out -/

theorem removeInvite_setInvitations (hP : w.parties p = some P) (hy : y ∈ P.inviteList)
    (hinvitees : P.inviteList.Nodup) {rest : List ℕ} (hrest : p ∉ rest) :
    (w.removeInvite p y false).setInvitations y rest = (w.setInvitations y (p :: rest)).removeInvite p y true := by
  have hP' : (w.setInvitations y (p :: rest)).parties p = some P := hP
  have hfilter : (p :: rest).filter (fun q => q ≠ p) = rest := by
    rw [List.filter_cons_of_neg (by simp), List.filter_eq_self.mpr]
    intro q hq
    have hne : q ≠ p := fun heq => hrest (heq ▸ hq)
    simpa using hne
  rw [World.removeInvite, World.removeInvite, hP, hP']
  dsimp only
  rw [if_neg (not_not.mpr hy), if_neg (not_not.mpr hy), if_pos rfl, if_neg Bool.false_ne_true]
  have hsame : ((w.setInvitations y (p :: rest)).putParty p
      (some { P with inviteList := P.inviteList.erase y })).removePartyInvitation y p =
        (w.putParty p (some { P with inviteList := P.inviteList.erase y })).setInvitations y
          rest := by
    simp only [World.removePartyInvitation, World.setInvitations, World.putParty,
      Function.update_self, hfilter, Function.update_idem]
  rw [hsame]
  split
  · have hget : (w.putParty p (some { P with inviteList := P.inviteList.erase y })).parties p =
        some { P with inviteList := P.inviteList.erase y } := Function.update_self ..
    have hget' : ((w.putParty p (some { P with inviteList := P.inviteList.erase y })).setInvitations
        y rest).parties p =
        some { P with inviteList := P.inviteList.erase y } := hget
    rw [disband_eq hget, disband_eq hget']
    simp only [World.setInvitations, World.putParty, World.mk.injEq, true_and, and_true]
    funext x
    by_cases hx : x = y
    · simp [hx, hinvitees.mem_erase_iff]
    · simp [Function.update_of_ne hx]
  · rfl

theorem Inv.removeInvites (l : List ℕ) (w : World) (h : Inv (w.setInvitations y l)) :
    Inv ((l.foldl (fun w party => w.removeInvite party y false) w).setInvitations y []) := by
  induction l generalizing w with
  | nil => exact h
  | cons p rest ih =>
    have hlist : (w.setInvitations y (p :: rest)).invitePartyList y = p :: rest :=
      Function.update_self ..
    have hnodup := h.invitations y
    rw [hlist] at hnodup
    obtain ⟨P, hP, hy⟩ := (h.invited y p).mp (by rw [hlist]; simp)
    have hP' : w.parties p = some P := hP
    have hfirst := h.removeInvite p y
    rw [← removeInvite_setInvitations hP' hy (h.invitees p P hP) (List.nodup_cons.mp hnodup).1] at hfirst
    exact ih _ hfirst

theorem Inv.clearPartyInvitations (h : Inv w) (y : ℕ) : Inv (w.clearPartyInvitations y) := by
  have hsame : w.setInvitations y (w.invitePartyList y) = w := by
    rw [World.setInvitations, Function.update_eq_self]
  exact Inv.removeInvites (w.invitePartyList y) w (hsame.symm ▸ h)

/-! ## Runs -/

theorem inv_init : Inv {} where
  pointer x p := by simp
  invited x p := by simp
  leader p P hP := absurd hP (by simp)
  members p P hP := absurd hP (by simp)
  invitees p P hP := absurd hP (by simp)
  invitations x := List.nodup_nil
  company p P hP := absurd hP (by simp)

theorem inv_step (w : World) (event : Event) (h : Inv w) (hfresh : w.Fresh event) : Inv (w.step event) := by
  cases event with
  | invite player invited address =>
    rw [World.step, World.playerInviteToParty]
    split
    · exact h
    split
    · exact h
    split
    · exact h
    split
    · rename_i hnone
      exact h.newParty hfresh hnone invited
    split
    · exact h
    · exact h.invitePlayer _ invited
  | join player leader =>
    rw [World.step, World.playerJoinParty]
    split
    · exact h
    rename_i hinviting
    split
    · exact h
    rename_i party hparty
    split
    · exact h
    split
    · exact h
    rename_i hnone
    obtain ⟨p, P, hp, hP, -, hmem⟩ := isInviting_iff (by simpa using hinviting)
    obtain rfl := Option.some.inj (hparty.symm.trans hp)
    exact h.joinParty hP hmem (by simpa using hnone)
  | revoke player invited =>
    rw [World.step, World.playerRevokePartyInvitation]
    split
    · exact h
    split
    · exact h
    split
    · exact h
    · exact h.removeInvite _ invited
  | passLeadership player newLeader =>
    rw [World.step, World.playerPassPartyLeadership]
    split
    · exact h
    rename_i party hparty
    split
    · exact h
    rename_i hleads
    split
    · exact h
    rename_i hpartner
    obtain ⟨P, hP, -⟩ := member_or_leader h.toLinked hparty
    have hlead : P.leader = player := (leads_iff hP).mp (by simpa using hleads)
    simp only [World.isPartner, hparty, Bool.not_eq_true', Bool.not_eq_false, Bool.and_eq_true,
      decide_eq_true_eq] at hpartner
    have hin := (h.pointer_iff hP newLeader).mp hpartner.2.symm
    exact h.passPartyLeadership hP (hin.resolve_left fun heq => hpartner.1.2 (heq.trans hlead))
  | leave player inFight =>
    rw [World.step, World.playerLeaveParty]
    split
    · exact h
    rename_i hparty
    split
    · exact h
    · exact h.leaveParty hparty
  | logout player =>
    have hcleared := h.clearPartyInvitations player
    rw [World.step, World.logout]
    split
    · exact hcleared
    · rename_i hparty
      exact hcleared.leaveParty hparty

/-- The pointers are those that the lists say, and none goes to a party that is gone. -/
structure Sound (w : World) : Prop where
  pointer : ∀ x p P, w.parties p = some P → (w.party x = some p ↔ x = P.leader ∨ x ∈ P.memberList)
  leader : ∀ p P, w.parties p = some P → P.leader ∉ P.memberList ∧ P.memberList.Nodup
  invited : ∀ x p P, w.parties p = some P → (x ∈ P.inviteList ↔ p ∈ w.invitePartyList x)
  company : ∀ p P, w.parties p = some P → P.memberList ≠ [] ∨ P.inviteList ≠ []
  dangling : ∀ x p, w.party x = some p ∨ p ∈ w.invitePartyList x → w.parties p ≠ none

theorem Inv.sound (h : Inv w) : Sound w where
  pointer x _ _ hP := h.pointer_iff hP x
  leader p P hP := ⟨h.leader p P hP, h.members p P hP⟩
  invited x _ _ hP := (h.invited_iff hP x).symm
  company := h.company
  dangling x p hp := by
    obtain hp | hp := hp
    · obtain ⟨P, hP, -⟩ := member_or_leader h.toLinked hp
      simp [hP]
    · obtain ⟨P, hP, -⟩ := (h.invited x p).mp hp
      simp [hP]

theorem parties_stay_linked (events : List Event) (hfresh : Along World.step World.Fresh {} events) :
    ∀ before, before <+: events → Sound (run World.step {} before) := fun before hbefore =>
  (inv_reached inv_step inv_init hfresh before hbefore).sound

/-- Two players are invited, one joins and the other is left when the leader logs out. -/
theorem parties_stay_linked_logout :
    let events : List Event := [.invite 1 2 100, .invite 1 3 200, .join 2 1, .logout 1]
    ∀ before, before <+: events → Sound (run World.step {} before) := by
  intro events
  exact parties_stay_linked events ⟨rfl, rfl, trivial, trivial, trivial⟩

end ForgottenServer.Parties
