import Mathlib.Data.List.Basic
import Mathlib.Logic.Function.Basic

/-! # Parties

A party knows its leader, members and invited players, and a player knows his party
and the parties that have invited him. The events of a party return true; what is
sent to the players is left out. -/
namespace ForgottenServer.Parties

structure Party where
  leader : ℕ
  memberList : List ℕ := []
  inviteList : List ℕ := []

/-- `Party::empty`. -/
def Party.empty (P : Party) : Bool := P.memberList.isEmpty && P.inviteList.isEmpty

/-- The pointers of the players, and the parties by their addresses. -/
structure World where
  party : ℕ → Option ℕ := fun _ => none
  invitePartyList : ℕ → List ℕ := fun _ => []
  parties : ℕ → Option Party := fun _ => none

namespace World

def setParty (w : World) (player : ℕ) (party : Option ℕ) : World :=
  { w with party := Function.update w.party player party }

def setInvitations (w : World) (player : ℕ) (l : List ℕ) : World :=
  { w with invitePartyList := Function.update w.invitePartyList player l }

def putParty (w : World) (party : ℕ) (P : Option Party) : World :=
  { w with parties := Function.update w.parties party P }

def addPartyInvitation (w : World) (player party : ℕ) : World :=
  if party ∈ w.invitePartyList player then w
    else w.setInvitations player (party :: w.invitePartyList player)

def removePartyInvitation (w : World) (player party : ℕ) : World :=
  w.setInvitations player ((w.invitePartyList player).filter fun p => p ≠ party)

def disband (w : World) (party : ℕ) : World :=
  match w.parties party with
  | none => w
  | some P =>
    let w := w.setParty P.leader none
    let w := P.inviteList.foldl (fun w invitee => w.removePartyInvitation invitee party) w
    let w := P.memberList.foldl (fun w member => w.setParty member none) w
    w.putParty party none

def passPartyLeadership (w : World) (party player : ℕ) : World :=
  match w.parties party with
  | none => w
  | some P =>
    if P.leader = player ∨ w.party player ≠ some party then w
    else w.putParty party (some { P with leader := player, memberList := P.leader :: P.memberList.erase player })

/-- The first part of `leaveParty`: a leader who goes passes the leadership on, or is missing. -/
def replaceLeader (w : World) (party player : ℕ) (P : Party) : Bool × World :=
  if P.leader = player then
    match P.memberList with
    | [] => (true, w)
    | front :: rest =>
      if rest = [] ∧ P.inviteList = [] then (true, w)
        else (false, w.passPartyLeadership party front)
  else (false, w)

/-- The second part: the player is no more a member. -/
def eraseMember (w : World) (party player : ℕ) (missingLeader : Bool) : World :=
  match w.parties party with
  | none => w
  | some P =>
    let P := { P with memberList := P.memberList.erase player }
    let w := w.putParty party (some P)
    let w := w.setParty player none
    if missingLeader || P.empty then w.disband party else w

def leaveParty (w : World) (party player : ℕ) : World :=
  match w.parties party with
  | none => w
  | some P =>
    if w.party player ≠ some party ∧ P.leader ≠ player then w
    else
      let (missingLeader, w) := w.replaceLeader party player P
      w.eraseMember party player missingLeader

def joinParty (w : World) (party player : ℕ) : World :=
  match w.parties party with
  | none => w
  | some P =>
    if player ∉ P.inviteList then w
    else
      let w := w.putParty party
        (some { P with inviteList := P.inviteList.erase player, memberList := P.memberList ++ [player] })
      let w := w.setParty player (some party)
      w.removePartyInvitation player party

def removeInvite (w : World) (party player : ℕ) (removeFromPlayer : Bool) : World :=
  match w.parties party with
  | none => w
  | some P =>
    if player ∉ P.inviteList then w
    else
      let P := { P with inviteList := P.inviteList.erase player }
      let w := w.putParty party (some P)
      let w := if removeFromPlayer then w.removePartyInvitation player party else w
      if P.empty then w.disband party else w

def invitePlayer (w : World) (party player : ℕ) : World :=
  match w.parties party with
  | none => w
  | some P =>
    if player ∈ P.inviteList then w
    else
      let w := w.putParty party (some { P with inviteList := P.inviteList ++ [player] })
      w.addPartyInvitation player party

/-- `Player::clearPartyInvitations`. -/
def clearPartyInvitations (w : World) (player : ℕ) : World :=
  let w := (w.invitePartyList player).foldl (fun w party => w.removeInvite party player false) w
  w.setInvitations player []

def isInviting (w : World) (player other : ℕ) : Bool :=
  match w.party player with
  | none => false
  | some party => (w.parties party).any fun P => P.leader = player && P.inviteList.contains other

def isPartner (w : World) (player other : ℕ) : Bool :=
  (w.party player).isSome && other ≠ player && w.party player = w.party other

/-! ## What players do -/

def leads (w : World) (player party : ℕ) : Bool := (w.parties party).any fun P => P.leader = player

/-- A new party is made at a free address. -/
def playerInviteToParty (w : World) (player invited address : ℕ) : World :=
  if player = invited then w
  else if w.isInviting invited player then w
  else if (w.party invited).isSome then w
  else match w.party player with
    | none =>
      let w := (w.putParty address (some { leader := player })).setParty player (some address)
      w.invitePlayer address invited
    | some party => if !w.leads player party then w else w.invitePlayer party invited

def playerJoinParty (w : World) (player leader : ℕ) : World :=
  if !w.isInviting leader player then w
  else match w.party leader with
    | none => w
    | some party =>
      if !w.leads leader party then w
      else if (w.party player).isSome then w
      else w.joinParty party player

def playerRevokePartyInvitation (w : World) (player invited : ℕ) : World :=
  match w.party player with
  | none => w
  | some party =>
    if !w.leads player party then w
    else if !w.isInviting player invited then w
    else w.removeInvite party invited true

def playerPassPartyLeadership (w : World) (player newLeader : ℕ) : World :=
  match w.party player with
  | none => w
  | some party =>
    if !w.leads player party then w
    else if !w.isPartner player newLeader then w
    else w.passPartyLeadership party newLeader

def playerLeaveParty (w : World) (player : ℕ) (inFight : Bool) : World :=
  match w.party player with
  | none => w
  | some party => if inFight then w else w.leaveParty party player

/-- What happens to the parties at a logout. -/
def logout (w : World) (player : ℕ) : World :=
  let w := w.clearPartyInvitations player
  match w.party player with
  | none => w
  | some party => w.leaveParty party player

end World

inductive Event
  | invite (player invited address : ℕ)
  | join (player leader : ℕ)
  | revoke (player invited : ℕ)
  | passLeadership (player newLeader : ℕ)
  | leave (player : ℕ) (inFight : Bool)
  | logout (player : ℕ)

def World.step (w : World) : Event → World
  | .invite player invited address => w.playerInviteToParty player invited address
  | .join player leader => w.playerJoinParty player leader
  | .revoke player invited => w.playerRevokePartyInvitation player invited
  | .passLeadership player newLeader => w.playerPassPartyLeadership player newLeader
  | .leave player inFight => w.playerLeaveParty player inFight
  | .logout player => w.logout player

/-- A new party is made where no other is. -/
def World.Fresh (w : World) : Event → Prop
  | .invite _ _ address => w.parties address = none
  | _ => True

end ForgottenServer.Parties
