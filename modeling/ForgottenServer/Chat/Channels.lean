import ForgottenServer.Parties.Party

/-! # Chat channels

The channels of the guilds and parties, the private ones and those that are always
there. A user is known by his creature, an invited player and an owner by his guid.
The events of a channel return true; what is sent to the clients is left out. -/
namespace ForgottenServer.Chat
open ForgottenServer.Parties (World Party)

def channelGuild : ℕ := 0x00
def channelParty : ℕ := 0x01
def channelPrivate : ℕ := 0xFFFF

/-- The four maps of `Chat`, each with its keys. -/
inductive ChannelKey
  | normalChannel (id : ℕ) | privateChannel (id : ℕ) | partyChannel (party : ℕ)
  | guildChannel (guildId : ℕ)
  deriving DecidableEq

/-- A `ChatChannel`; only a `PrivateChatChannel` has an owner and invites. -/
structure Channel where
  users : List ℕ := []
  owner : ℕ := 0
  invites : List ℕ := []

namespace Channel

def isInvited (C : Channel) (guid : ℕ) : Bool := guid = C.owner || C.invites.contains guid

def removeInvite (C : Channel) (guid : ℕ) : Channel :=
  { C with invites := C.invites.filter fun g => g ≠ guid }

def addUser (C : Channel) (player : ℕ) : Option Channel :=
  if player ∈ C.users then none else some { C with users := player :: C.users }

def eraseUser (C : Channel) (player : ℕ) : Channel :=
  { C with users := C.users.filter fun u => u ≠ player }

def removeUser (C : Channel) (player : ℕ) : Option Channel :=
  if player ∈ C.users then some (C.eraseUser player) else none

def invitePlayer (C : Channel) (guid : ℕ) : Channel :=
  if guid ∈ C.invites then C else { C with invites := guid :: C.invites }

def excludePlayer (C : Channel) (player guid : ℕ) : Channel :=
  if guid ∈ C.invites then (C.removeInvite guid).eraseUser player else C

end Channel

structure Server where
  world : World := {}
  channels : ChannelKey → Option Channel := fun _ => none
  online : List ℕ := []

/-- The server with the channels that `Chat::load` has read. -/
def start (normalChannels : ℕ → Bool) : Server where
  channels
    | .normalChannel id => if normalChannels id then some {} else none
    | _ => none

namespace Server

def putChannel (s : Server) (key : ChannelKey) (C : Option Channel) : Server :=
  { s with channels := Function.update s.channels key C }

/-- `std::map::emplace`. -/
def emplace (s : Server) (key : ChannelKey) (C : Channel) : Server :=
  if (s.channels key).isSome then s else s.putChannel key (some C)

def find (s : Server) (key : ChannelKey) : Option ChannelKey :=
  if (s.channels key).isSome then some key else none

section Model
variable (guid : ℕ → ℕ) (guild : ℕ → Option ℕ)

def getChannel (s : Server) (player channelId : ℕ) : Option ChannelKey :=
  if channelId = channelGuild then (guild player).bind fun g => s.find (.guildChannel g)
  else if channelId = channelParty then
    (s.world.party player).bind fun party => s.find (.partyChannel party)
  else if (s.channels (.normalChannel channelId)).isSome then some (.normalChannel channelId)
  else if (s.channels (.privateChannel channelId)).any (·.isInvited (guid player)) then
    some (.privateChannel channelId)
  else none

def privateIds : List ℕ := List.range' 100 9900

def getPrivateChannel (s : Server) (player : ℕ) : Option ℕ :=
  privateIds.find? fun id => (s.channels (.privateChannel id)).any fun C => C.owner = guid player

def createChannel (s : Server) (player channelId : ℕ) (isPremium : Bool) : Option ChannelKey × Server :=
  if (s.getChannel guid guild player channelId).isSome then (none, s)
  else if channelId = channelGuild then
    match guild player with
    | some g => (some (.guildChannel g), s.emplace (.guildChannel g) {})
    | none => (none, s)
  else if channelId = channelParty then
    match s.world.party player with
    | some party => (some (.partyChannel party), s.emplace (.partyChannel party) {})
    | none => (none, s)
  else if channelId = channelPrivate then
    if !isPremium || (s.getPrivateChannel guid player).isSome then (none, s)
    else
      match privateIds.find? fun id => (s.channels (.privateChannel id)).isNone with
      | some id => (some (.privateChannel id), s.emplace (.privateChannel id) { owner := guid player })
      | none => (none, s)
  else (none, s)

/-- `closeChannel` tells the users of a private channel, no more. -/
def deleteChannel (s : Server) (player channelId : ℕ) : Server :=
  if channelId = channelGuild then
    match guild player with
    | some g => s.putChannel (.guildChannel g) none
    | none => s
  else if channelId = channelParty then
    match s.world.party player with
    | some party => s.putChannel (.partyChannel party) none
    | none => s
  else s.putChannel (.privateChannel channelId) none

def addUser (s : Server) (key : ChannelKey) (player : ℕ) : Server :=
  match (s.channels key).bind (·.addUser player) with
  | some C => s.putChannel key (some C)
  | none => s

def addUserToChannel (s : Server) (player channelId : ℕ) : Server :=
  match s.getChannel guid guild player channelId with
  | some key => s.addUser key player
  | none => s

def removeUserFromChannel (s : Server) (player channelId : ℕ) : Server :=
  match s.getChannel guid guild player channelId with
  | none => s
  | some key =>
    match (s.channels key).bind (·.removeUser player) with
    | none => s
    | some C =>
      let s := s.putChannel key (some C)
      if C.owner = guid player then s.deleteChannel guild player channelId else s

def removeUserFromAllChannels (s : Server) (player : ℕ) : Server :=
  { s with channels := fun key => (s.channels key).bind fun C =>
      match key with
      | .privateChannel _ =>
        if C.owner = guid player then none
        else some ((C.removeInvite (guid player)).eraseUser player)
      | _ => some (C.eraseUser player) }

def getChannelList (s : Server) (player : ℕ) : Server :=
  let s := if (guild player).isSome && (s.getChannel guid guild player channelGuild).isNone then
    (s.createChannel guid guild player channelGuild false).2 else s
  if (s.world.party player).isSome && (s.getChannel guid guild player channelParty).isNone then
    (s.createChannel guid guild player channelParty false).2 else s

/-- `Player::sendClosePrivate`. -/
def sendClosePrivate (s : Server) (player channelId : ℕ) : Server :=
  if channelId = channelGuild ∨ channelId = channelParty then
    s.removeUserFromChannel guid guild player channelId
  else s

/-! ## Parties and their channels -/

def setParty (s : Server) (player : ℕ) (party : Option ℕ) : Server :=
  { s with world := s.world.setParty player party }

def disband (s : Server) (party : ℕ) : Server :=
  match s.world.parties party with
  | none => s
  | some P =>
    let s := s.setParty P.leader none
    let s := s.sendClosePrivate guid guild P.leader channelParty
    let s := { s with world := P.inviteList.foldl (fun w invitee => w.removePartyInvitation invitee party) s.world }
    let s := P.memberList.foldl
      (fun s member => (s.setParty member none).sendClosePrivate guid guild member channelParty) s
    { s with world := s.world.putParty party none }

def eraseMember (s : Server) (party player : ℕ) (missingLeader : Bool) : Server :=
  match s.world.parties party with
  | none => s
  | some P =>
    let P := { P with memberList := P.memberList.erase player }
    let s := { s with world := s.world.putParty party (some P) }
    let s := s.setParty player none
    let s := s.sendClosePrivate guid guild player channelParty
    if missingLeader || P.empty then s.disband guid guild party else s

def leaveParty (s : Server) (party player : ℕ) : Server :=
  match s.world.parties party with
  | none => s
  | some P =>
    if s.world.party player ≠ some party ∧ P.leader ≠ player then s
    else
      let (missingLeader, w) := s.world.replaceLeader party player P
      { s with world := w }.eraseMember guid guild party player missingLeader

def removeInvite (s : Server) (party player : ℕ) (removeFromPlayer : Bool) : Server :=
  match s.world.parties party with
  | none => s
  | some P =>
    if player ∉ P.inviteList then s
    else
      let P := { P with inviteList := P.inviteList.erase player }
      let w := s.world.putParty party (some P)
      let w := if removeFromPlayer then w.removePartyInvitation player party else w
      let s := { s with world := w }
      if P.empty then s.disband guid guild party else s

def clearPartyInvitations (s : Server) (player : ℕ) : Server :=
  let s := (s.world.invitePartyList player).foldl (fun s party => s.removeInvite guid guild party player false) s
  { s with world := s.world.setInvitations player [] }

def playerRevokePartyInvitation (s : Server) (player invited : ℕ) : Server :=
  match s.world.party player with
  | none => s
  | some party =>
    if !s.world.leads player party then s
    else if !s.world.isInviting player invited then s
    else s.removeInvite guid guild party invited true

def playerLeaveParty (s : Server) (player : ℕ) (inFight : Bool) : Server :=
  match s.world.party player with
  | none => s
  | some party => if inFight then s else s.leaveParty guid guild party player

/-- `Player::onRemoveCreature`, as far as parties and channels go. -/
def logout (s : Server) (player : ℕ) : Server :=
  let s := s.clearPartyInvitations guid guild player
  let s := match s.world.party player with
    | none => s
    | some party => s.leaveParty guid guild party player
  let s := s.removeUserFromAllChannels guid player
  { s with online := s.online.erase player }

/-! ## What players do -/

def playerCreatePrivateChannel (s : Server) (player : ℕ) (isPremium : Bool) : Server :=
  if !isPremium then s
  else
    match s.createChannel guid guild player channelPrivate isPremium with
    | (none, s) => s
    | (some key, s) => s.addUser key player

def playerChannelInvite (s : Server) (player invited : ℕ) : Server :=
  match s.getPrivateChannel guid player with
  | none => s
  | some id =>
    if player = invited then s
    else s.putChannel (.privateChannel id) ((s.channels (.privateChannel id)).map (·.invitePlayer (guid invited)))

def playerChannelExclude (s : Server) (player excluded : ℕ) : Server :=
  match s.getPrivateChannel guid player with
  | none => s
  | some id =>
    if player = excluded then s
    else s.putChannel (.privateChannel id)
      ((s.channels (.privateChannel id)).map (·.excludePlayer excluded (guid excluded)))

end Model
end Server

inductive Event
  | login (player : ℕ)
  | connect (player : ℕ)
  | party (event : Parties.Event)
  | requestChannels (player : ℕ)
  | openChannel (player channelId : ℕ)
  | closeChannel (player channelId : ℕ)
  | createPrivateChannel (player : ℕ) (isPremium : Bool)
  | channelInvite (player invited : ℕ)
  | channelExclude (player excluded : ℕ)

/-- The players of an event of a party, who are looked up by their ids. -/
def players : Parties.Event → List ℕ
  | .invite player invited _ => [player, invited]
  | .join player leader => [player, leader]
  | .revoke player invited => [player, invited]
  | .passLeadership player newLeader => [player, newLeader]
  | .leave player _ => [player]
  | .logout player => [player]

namespace Server
variable (guid : ℕ → ℕ) (guild : ℕ → Option ℕ)

def partyStep (s : Server) : Parties.Event → Server
  | .revoke player invited => s.playerRevokePartyInvitation guid guild player invited
  | .leave player inFight => s.playerLeaveParty guid guild player inFight
  | .logout player => s.logout guid guild player
  | event => { s with world := s.world.step event }

/-- Only players who are online do something. -/
def isOnline (s : Server) : Event → Bool
  | .login _ => true
  | .party event => (players event).all fun player => s.online.contains player
  | .connect player | .requestChannels player | .openChannel player _ | .closeChannel player _
  | .createPrivateChannel player _ => s.online.contains player
  | .channelInvite player other | .channelExclude player other =>
    s.online.contains player && s.online.contains other

def act (s : Server) : Event → Server
  | .login player => { s with online := player :: s.online }
  | .connect player => s.removeUserFromAllChannels guid player
  | .party event => s.partyStep guid guild event
  | .requestChannels player => s.getChannelList guid guild player
  | .openChannel player channelId => s.addUserToChannel guid guild player channelId
  | .closeChannel player channelId => s.removeUserFromChannel guid guild player channelId
  | .createPrivateChannel player isPremium => s.playerCreatePrivateChannel guid guild player isPremium
  | .channelInvite player invited => s.playerChannelInvite guid player invited
  | .channelExclude player excluded => s.playerChannelExclude guid player excluded

def step (s : Server) (event : Event) : Server :=
  if s.isOnline event then s.act guid guild event else s

/-- A player is online once, and a new party is made where no other is. -/
def Legal (s : Server) : Event → Prop
  | .login player => player ∉ s.online ∧ ∀ other ∈ s.online, guid other ≠ guid player
  | .party event => s.world.Fresh event
  | _ => True

end Server
end ForgottenServer.Chat
