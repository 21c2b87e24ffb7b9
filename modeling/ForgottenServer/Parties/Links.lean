import ForgottenServer.Lib.Run
import ForgottenServer.Parties.Party
import Mathlib.Data.List.Nodup

/-! # The pointers between players and parties

A party and its players point to each other, in both directions, and a party that is
disbanded is forgotten by all of them. -/
namespace ForgottenServer.Parties
open ForgottenServer.Lib.Run

/-- A player points to a party as it points to him. -/
structure Linked (w : World) : Prop where
  pointer : ∀ x p, w.party x = some p ↔ ∃ P, w.parties p = some P ∧ (x = P.leader ∨ x ∈ P.memberList)
  invited : ∀ x p, p ∈ w.invitePartyList x ↔ ∃ P, w.parties p = some P ∧ x ∈ P.inviteList
  leader : ∀ p P, w.parties p = some P → P.leader ∉ P.memberList
  members : ∀ p P, w.parties p = some P → P.memberList.Nodup
  invitees : ∀ p P, w.parties p = some P → P.inviteList.Nodup
  invitations : ∀ x, (w.invitePartyList x).Nodup

/-- Nobody is in a party for himself. -/
structure Inv (w : World) : Prop extends Linked w where
  company : ∀ p P, w.parties p = some P → P.memberList ≠ [] ∨ P.inviteList ≠ []

variable {w : World} {p q x y : ℕ} {P : Party}

theorem Linked.pointer_iff (h : Linked w) (hP : w.parties p = some P) (x : ℕ) :
    w.party x = some p ↔ x = P.leader ∨ x ∈ P.memberList := by
  rw [h.pointer]
  constructor
  · rintro ⟨P', hP', hx⟩
    rw [hP] at hP'
    exact Option.some.inj hP' ▸ hx
  · exact fun hx => ⟨P, hP, hx⟩

theorem Linked.invited_iff (h : Linked w) (hP : w.parties p = some P) (x : ℕ) :
    p ∈ w.invitePartyList x ↔ x ∈ P.inviteList := by
  rw [h.invited]
  constructor
  · rintro ⟨P', hP', hx⟩
    rw [hP] at hP'
    exact Option.some.inj hP' ▸ hx
  · exact fun hx => ⟨P, hP, hx⟩

theorem empty_iff : P.empty = true ↔ P.memberList = [] ∧ P.inviteList = [] := by simp [Party.empty]

/-! ## A change of one party and one player -/

/-- The world in which the party `p` is `P'`, and `y` has the pointer `v` and the invitations `l`.
-/
def World.edit (w : World) (p : ℕ) (P' : Party) (y : ℕ) (v : Option ℕ) (l : List ℕ) : World where
  party := Function.update w.party y v
  invitePartyList := Function.update w.invitePartyList y l
  parties := Function.update w.parties p (some P')

theorem edit_parties_self (w : World) (p : ℕ) (P' : Party) (y : ℕ) (v : Option ℕ) (l : List ℕ) :
    (w.edit p P' y v l).parties p = some P' := Function.update_self ..

theorem edit_parties_of_ne (hne : q ≠ p) (w : World) (P' : Party) (y : ℕ) (v : Option ℕ) (l : List ℕ) :
    (w.edit p P' y v l).parties q = w.parties q := Function.update_of_ne hne ..

theorem Linked.edit (h : Linked w) {P' : Party} {v : Option ℕ} {l : List ℕ}
    (hpointer : ∀ x, Function.update w.party y v x = some p ↔ x = P'.leader ∨ x ∈ P'.memberList)
    (hother : ∀ q, q ≠ p → (v = some q ↔ w.party y = some q))
    (hinvited : ∀ x, p ∈ Function.update w.invitePartyList y l x ↔ x ∈ P'.inviteList)
    (hother' : ∀ q, q ≠ p → (q ∈ l ↔ q ∈ w.invitePartyList y))
    (hleader : P'.leader ∉ P'.memberList) (hmembers : P'.memberList.Nodup)
    (hinvitees : P'.inviteList.Nodup) (hl : l.Nodup) : Linked (w.edit p P' y v l) := by
  have hparty : ∀ q Q, (w.edit p P' y v l).parties q = some Q → q = p ∧ Q = P' ∨ w.parties q = some Q := by
    intro q Q hQ
    by_cases heq : q = p
    · rw [heq, edit_parties_self] at hQ
      exact .inl ⟨heq, (Option.some.inj hQ).symm⟩
    · rw [edit_parties_of_ne heq] at hQ
      exact .inr hQ
  refine ⟨fun x q => ?_, fun x q => ?_, fun q Q hQ => ?_, fun q Q hQ => ?_, fun q Q hQ => ?_, fun x => ?_⟩
  · by_cases heq : q = p
    · subst heq
      simp only [World.edit, Function.update_self, Option.some.injEq, exists_eq_left']
      exact hpointer x
    · simp only [World.edit, Function.update_of_ne heq]
      rw [← h.pointer]
      by_cases hx : x = y
      · rw [hx, Function.update_self]
        exact hother q heq
      · rw [Function.update_of_ne hx]
  · by_cases heq : q = p
    · subst heq
      simp only [World.edit, Function.update_self, Option.some.injEq, exists_eq_left']
      exact hinvited x
    · simp only [World.edit, Function.update_of_ne heq]
      rw [← h.invited]
      by_cases hx : x = y
      · rw [hx, Function.update_self]
        exact hother' q heq
      · rw [Function.update_of_ne hx]
  · obtain ⟨-, rfl⟩ | hQ := hparty q Q hQ
    · exact hleader
    · exact h.leader q Q hQ
  · obtain ⟨-, rfl⟩ | hQ := hparty q Q hQ
    · exact hmembers
    · exact h.members q Q hQ
  · obtain ⟨-, rfl⟩ | hQ := hparty q Q hQ
    · exact hinvitees
    · exact h.invitees q Q hQ
  · change (Function.update w.invitePartyList y l x).Nodup
    by_cases hx : x = y
    · rw [hx, Function.update_self]
      exact hl
    · rw [Function.update_of_ne hx]
      exact h.invitations x

theorem Inv.company_edit (h : Inv w) {P' : Party} {v : Option ℕ} {l : List ℕ} {Q : Party} (hne : q ≠ p)
    (hQ : (w.edit p P' y v l).parties q = some Q) : Q.memberList ≠ [] ∨ Q.inviteList ≠ [] := by
  rw [edit_parties_of_ne hne] at hQ
  exact h.company q Q hQ

theorem Inv.edit (h : Inv w) {P' : Party} {v : Option ℕ} {l : List ℕ} (hlinked : Linked (w.edit p P' y v l))
    (hcompany : P'.memberList ≠ [] ∨ P'.inviteList ≠ []) : Inv (w.edit p P' y v l) where
  toLinked := hlinked
  company q Q hQ := by
    by_cases heq : q = p
    · rw [heq, edit_parties_self] at hQ
      exact Option.some.inj hQ ▸ hcompany
    · exact h.company_edit heq hQ

/-! ## Disbanding -/

theorem foldl_setParty (l : List ℕ) (w : World) : l.foldl (fun w member => w.setParty member none) w =
      { w with party := fun x => if x ∈ l then none else w.party x } := by
  induction l generalizing w with
  | nil => simp
  | cons member l ih =>
    rw [List.foldl_cons, ih]
    simp only [World.setParty, World.mk.injEq, and_true]
    funext x
    by_cases hx : x = member
    · simp [hx]
    · simp [hx]

theorem foldl_removePartyInvitation (l : List ℕ) (p : ℕ) (w : World) :
    l.foldl (fun w invitee => w.removePartyInvitation invitee p) w =
      { w with invitePartyList := fun x =>
          if x ∈ l then (w.invitePartyList x).filter fun q => q ≠ p else w.invitePartyList x } := by
  induction l generalizing w with
  | nil => simp
  | cons invitee l ih =>
    rw [List.foldl_cons, ih]
    simp only [World.removePartyInvitation, World.setInvitations, World.mk.injEq,
      and_true, true_and]
    funext x
    by_cases hx : x = invitee
    · simp [hx]
    · simp [hx]

theorem disband_eq (hP : w.parties p = some P) :
    w.disband p =
      { party := fun x => if x = P.leader ∨ x ∈ P.memberList then none else w.party x
        invitePartyList := fun x =>
          if x ∈ P.inviteList then (w.invitePartyList x).filter fun q => q ≠ p
            else w.invitePartyList x
        parties := Function.update w.parties p none } := by
  rw [World.disband, hP]
  dsimp only
  rw [foldl_setParty, foldl_removePartyInvitation]
  simp only [World.putParty, World.setParty, World.mk.injEq, and_true]
  funext x
  by_cases hx : x = P.leader
  · simp [hx]
  · simp [hx]

theorem Linked.disband (h : Linked w) (hP : w.parties p = some P)
    (hcompany : ∀ q Q, q ≠ p → w.parties q = some Q → Q.memberList ≠ [] ∨ Q.inviteList ≠ []) : Inv (w.disband p) := by
  have hparty : ∀ q Q, Function.update w.parties p none q = some Q → q ≠ p ∧ w.parties q = some Q := by
    intro q Q hQ
    by_cases heq : q = p
    · rw [heq, Function.update_self] at hQ
      exact absurd hQ (by simp)
    · rw [Function.update_of_ne heq] at hQ
      exact ⟨heq, hQ⟩
  have hgone : ¬ ∃ Q, Function.update w.parties p none p = some Q := by simp
  rw [disband_eq hP]
  refine ⟨⟨fun x q => ?_, fun x q => ?_, fun q Q hQ => h.leader q Q (hparty q Q hQ).2,
    fun q Q hQ => h.members q Q (hparty q Q hQ).2, fun q Q hQ => h.invitees q Q (hparty q Q hQ).2,
    fun x => ?_⟩, fun q Q hQ => hcompany q Q (hparty q Q hQ).1 (hparty q Q hQ).2⟩
  · dsimp only
    have hmine := h.pointer_iff hP x
    by_cases heq : q = p
    · subst heq
      constructor
      · intro hx
        split at hx
        · exact absurd hx (by simp)
        · rename_i hnot
          exact absurd (hmine.mp hx) hnot
      · rintro ⟨Q, hQ, -⟩
        exact absurd ⟨Q, hQ⟩ hgone
    · rw [Function.update_of_ne heq, ← h.pointer]
      split
      · rename_i hx
        rw [hmine.mpr hx]
        simpa using Ne.symm heq
      · rfl
  · dsimp only
    have hmine := h.invited_iff hP x
    by_cases heq : q = p
    · subst heq
      constructor
      · intro hx
        split at hx
        · simp at hx
        · rename_i hnot
          exact absurd (hmine.mp hx) hnot
      · rintro ⟨Q, hQ, -⟩
        exact absurd ⟨Q, hQ⟩ hgone
    · rw [Function.update_of_ne heq, ← h.invited]
      split
      · simp [heq]
      · rfl
  · dsimp only
    split
    · exact (h.invitations x).filter _
    · exact h.invitations x

end ForgottenServer.Parties
