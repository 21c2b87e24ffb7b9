import ForgottenServer.Chat.Channels
import ForgottenServer.Parties.Leaving

/-! # Who is in a channel

When a party is left, its channel is left by a lookup through the pointer to the party,
which is gone by then. The users of the channels follow the parties as long as no user
loses his party, except by logging out. -/
namespace ForgottenServer.Chat
open ForgottenServer.Lib.Run
open ForgottenServer.Parties (World Party)

variable {guid : ℕ → ℕ} {guild : ℕ → Option ℕ} {s s' s'' : Server} {u player party : ℕ}
  {key : ChannelKey} {C C' : Channel}

/-! ## Parties without their channels -/

section Refine

theorem sendClosePrivate_eq (h : s.world.party player = none) :
    s.sendClosePrivate guid guild player channelParty = s := by
  have hchannel : s.getChannel guid guild player channelParty = none := by
    rw [Server.getChannel, if_neg (by decide), if_pos rfl, h, Option.bind_none]
  rw [Server.sendClosePrivate, if_pos (.inr rfl), Server.removeUserFromChannel, hchannel]

theorem close_setParty (s : Server) (player : ℕ) :
    (s.setParty player none).sendClosePrivate guid guild player channelParty = s.setParty player none :=
  sendClosePrivate_eq (Function.update_self ..)

theorem foldl_close (l : List ℕ) (s : Server) : l.foldl (fun s member =>
      (s.setParty member none).sendClosePrivate guid guild member channelParty) s =
      { s with world := l.foldl (fun w member => w.setParty member none) s.world } := by
  induction l generalizing s with
  | nil => rfl
  | cons member l ih =>
    rw [List.foldl_cons, close_setParty, ih]
    rfl

theorem disband_eq (s : Server) (party : ℕ) :
    s.disband guid guild party = { s with world := s.world.disband party } := by
  rw [Server.disband, World.disband]
  cases s.world.parties party with
  | none => rfl
  | some P =>
    dsimp only
    rw [close_setParty, foldl_close]
    rfl

theorem eraseMember_eq (s : Server) (party player : ℕ) (missingLeader : Bool) :
    s.eraseMember guid guild party player missingLeader =
      { s with world := s.world.eraseMember party player missingLeader } := by
  rw [Server.eraseMember, World.eraseMember]
  cases s.world.parties party with
  | none => rfl
  | some P =>
    dsimp only
    rw [close_setParty, disband_eq]
    split <;> rfl

theorem leaveParty_eq (s : Server) (party player : ℕ) :
    s.leaveParty guid guild party player = { s with world := s.world.leaveParty party player } := by
  rw [Server.leaveParty, World.leaveParty]
  cases s.world.parties party with
  | none => rfl
  | some P =>
    dsimp only
    split
    · rfl
    · rw [eraseMember_eq]

theorem removeInvite_eq (s : Server) (party player : ℕ) (removeFromPlayer : Bool) :
    s.removeInvite guid guild party player removeFromPlayer =
      { s with world := s.world.removeInvite party player removeFromPlayer } := by
  rw [Server.removeInvite, World.removeInvite]
  cases s.world.parties party with
  | none => rfl
  | some P =>
    dsimp only
    split
    · rfl
    · rw [disband_eq]
      split
      · rfl
      · rfl

theorem clearPartyInvitations_eq (s : Server) (player : ℕ) :
    s.clearPartyInvitations guid guild player = { s with world := s.world.clearPartyInvitations player } := by
  have hfold : ∀ (l : List ℕ) (s : Server), l.foldl (fun s party => s.removeInvite guid guild party player false) s =
        { s with world := l.foldl (fun w party => w.removeInvite party player false) s.world } := by
    intro l
    induction l with
    | nil => exact fun _ => rfl
    | cons party l ih =>
      intro s
      rw [List.foldl_cons, removeInvite_eq, ih]
      rfl
  rw [Server.clearPartyInvitations, hfold]
  rfl

theorem logout_eq (s : Server) (player : ℕ) : s.logout guid guild player =
      { ({ s with world := s.world.logout player } : Server).removeUserFromAllChannels guid player
        with online := s.online.erase player } := by
  rw [Server.logout, clearPartyInvitations_eq, World.logout]
  dsimp only
  cases (s.world.clearPartyInvitations player).party player with
  | none => rfl
  | some party =>
    dsimp only
    rw [leaveParty_eq]
    rfl

/-- But for a logout, an event of a party does nothing to a channel. -/
theorem partyStep_eq (s : Server) {event : Parties.Event} (h : ∀ player, event ≠ .logout player) :
    s.partyStep guid guild event = { s with world := s.world.step event } := by
  cases event with
  | invite player invited address => rfl
  | join player leader => rfl
  | passLeadership player newLeader => rfl
  | revoke player invited =>
    rw [Server.partyStep, Server.playerRevokePartyInvitation, World.step, World.playerRevokePartyInvitation]
    cases s.world.party player with
    | none => rfl
    | some party =>
      dsimp only
      split
      · rfl
      · split
        · rfl
        · rw [removeInvite_eq]
  | leave player inFight =>
    rw [Server.partyStep, Server.playerLeaveParty, World.step, World.playerLeaveParty]
    cases s.world.party player with
    | none => rfl
    | some party =>
      dsimp only
      split
      · rfl
      · rw [leaveParty_eq]
  | logout player => exact absurd rfl (h player)

end Refine

/-! ## Channels that change -/

section Chats

/-- A player who may be in a channel. -/
structure May (guid : ℕ → ℕ) (s : Server) (key : ChannelKey) (C : Channel) (u : ℕ) : Prop where
  online : u ∈ s.online
  invited : ∀ id, key = .privateChannel id → C.isInvited (guid u) = true
  member : ∀ party, key = .partyChannel party → s.world.party u = some party

/-- A user who stays, and is invited if he was before. -/
structure Stays (guid : ℕ → ℕ) (C C' : Channel) (u : ℕ) : Prop where
  user : u ∈ C.users
  invited : C.isInvited (guid u) = true → C'.isInvited (guid u) = true

/-- Nothing but channels has changed, and only those who may have joined them. -/
structure Chats (guid : ℕ → ℕ) (s s' : Server) : Prop where
  world : s'.world = s.world
  online : s'.online = s.online
  users : ∀ key C', s'.channels key = some C' → ∀ u ∈ C'.users,
    (∃ C, s.channels key = some C ∧ Stays guid C C' u) ∨ May guid s key C' u

theorem Chats.refl (s : Server) : Chats guid s s where
  world := rfl
  online := rfl
  users _ C' hC' _ hu := .inl ⟨C', hC', hu, id⟩

theorem Chats.trans (h : Chats guid s s') (h' : Chats guid s' s'') : Chats guid s s'' where
  world := h'.world.trans h.world
  online := h'.online.trans h.online
  users key C'' hC'' u hu := by
    rcases h'.users key C'' hC'' u hu with ⟨C', hC', hstays⟩ | hmay
    · rcases h.users key C' hC' u hstays.user with ⟨C, hC, hstays'⟩ | hmay
      · exact .inl ⟨C, hC, hstays'.user, hstays.invited ∘ hstays'.invited⟩
      · exact .inr ⟨hmay.online, fun id hid => hstays.invited (hmay.invited id hid), hmay.member⟩
    · exact .inr ⟨h.online ▸ hmay.online, hmay.invited, h.world ▸ hmay.member⟩

theorem putChannel_self (s : Server) (key : ChannelKey) (D : Option Channel) :
    (s.putChannel key D).channels key = D := Function.update_self ..

theorem putChannel_of_ne {key' : ChannelKey} (hne : key' ≠ key) (s : Server) (D : Option Channel) :
    (s.putChannel key D).channels key' = s.channels key' := Function.update_of_ne hne ..

theorem chats_putChannel {D : Option Channel} (h : ∀ C', D = some C' → ∀ u ∈ C'.users,
    (∃ C, s.channels key = some C ∧ Stays guid C C' u) ∨ May guid s key C' u) :
    Chats guid s (s.putChannel key D) where
  world := rfl
  online := rfl
  users key' C' hC' u hu := by
    by_cases heq : key' = key
    · rw [heq] at hC' ⊢
      rw [putChannel_self] at hC'
      exact h C' hC' u hu
    · rw [putChannel_of_ne heq] at hC'
      exact .inl ⟨C', hC', hu, id⟩

theorem chats_delete (s : Server) (key : ChannelKey) : Chats guid s (s.putChannel key none) :=
  chats_putChannel fun _ h => by cases h

theorem chats_emplace (s : Server) (key : ChannelKey) (hC : C.users = []) : Chats guid s (s.emplace key C) := by
  rw [Server.emplace]
  split
  · exact .refl s
  · refine chats_putChannel fun C' hC' u hu => ?_
    cases hC'
    rw [hC] at hu
    cases hu

theorem chats_createChannel (s : Server) (player channelId : ℕ) (isPremium : Bool) :
    Chats guid s (s.createChannel guid guild player channelId isPremium).2 := by
  rw [Server.createChannel]
  split
  · exact .refl s
  split
  · split
    · exact chats_emplace s _ rfl
    · exact .refl s
  split
  · split
    · exact chats_emplace s _ rfl
    · exact .refl s
  split
  · split
    · exact .refl s
    · split
      · exact chats_emplace s _ rfl
      · exact .refl s
  · exact .refl s

theorem chats_getChannelList (s : Server) (player : ℕ) : Chats guid s (s.getChannelList guid guild player) := by
  have hcreate : ∀ (s : Server) (b : Bool) (channelId : ℕ), Chats guid s
      (if b then (s.createChannel guid guild player channelId false).2 else s) := by
    intro s b channelId
    split
    · exact chats_createChannel s player channelId false
    · exact .refl s
  exact (hcreate s _ channelGuild).trans (hcreate _ _ channelParty)

theorem find_eq {key' : ChannelKey} (h : s.find key = some key') : key' = key := by
  rw [Server.find] at h
  split at h
  · exact (Option.some.inj h).symm
  · cases h

theorem may_of_getChannel {channelId : ℕ} (hplayer : player ∈ s.online)
    (hkey : s.getChannel guid guild player channelId = some key) (hC : s.channels key = some C) :
    May guid s key C player := by
  refine ⟨hplayer, fun id hid => ?_, fun party hparty => ?_⟩
  · subst hid
    rw [Server.getChannel] at hkey
    split at hkey
    · obtain ⟨g, -, hfind⟩ := Option.bind_eq_some_iff.mp hkey
      cases find_eq hfind
    split at hkey
    · obtain ⟨party, -, hfind⟩ := Option.bind_eq_some_iff.mp hkey
      cases find_eq hfind
    split at hkey
    · cases hkey
    split at hkey
    · rename_i hinvited
      cases hkey
      rw [hC] at hinvited
      exact hinvited
    · cases hkey
  · subst hparty
    rw [Server.getChannel] at hkey
    split at hkey
    · obtain ⟨g, -, hfind⟩ := Option.bind_eq_some_iff.mp hkey
      cases find_eq hfind
    split at hkey
    · obtain ⟨party', hparty, hfind⟩ := Option.bind_eq_some_iff.mp hkey
      cases find_eq hfind
      exact hparty
    split at hkey
    · cases hkey
    split at hkey
    · cases hkey
    · cases hkey

theorem stays_of_invites (hu : u ∈ C.users) (howner : C'.owner = C.owner)
    (hinvites : ∀ g ∈ C.invites, g = guid u → g ∈ C'.invites) : Stays guid C C' u := by
  refine ⟨hu, fun h => ?_⟩
  rw [Channel.isInvited, Bool.or_eq_true, decide_eq_true_eq, List.contains_iff_mem] at h ⊢
  rw [howner]
  exact h.imp id fun hmem => hinvites _ hmem rfl

theorem chats_addUser (hmay : ∀ C, s.channels key = some C → May guid s key C player) :
    Chats guid s (s.addUser key player) := by
  rw [Server.addUser]
  split
  · rename_i C' hC'
    obtain ⟨C, hC, hadd⟩ := Option.bind_eq_some_iff.mp hC'
    rw [Channel.addUser] at hadd
    split at hadd
    · cases hadd
    cases hadd
    refine chats_putChannel fun D hD u hu => ?_
    cases hD
    rcases List.mem_cons.mp hu with rfl | hu
    · have h := hmay C hC
      exact .inr ⟨h.online, h.invited, h.member⟩
    · exact .inl ⟨C, hC, stays_of_invites hu rfl fun _ hg _ => hg⟩
  · exact .refl s

theorem chats_addUserToChannel (hplayer : player ∈ s.online) (channelId : ℕ) :
    Chats guid s (s.addUserToChannel guid guild player channelId) := by
  rw [Server.addUserToChannel]
  split
  · rename_i key hkey
    exact chats_addUser fun C hC => may_of_getChannel hplayer hkey hC
  · exact .refl s

theorem chats_deleteChannel (s : Server) (player channelId : ℕ) :
    Chats guid s (s.deleteChannel guild player channelId) := by
  rw [Server.deleteChannel]
  split
  · split
    · exact chats_delete s _
    · exact .refl s
  split
  · split
    · exact chats_delete s _
    · exact .refl s
  · exact chats_delete s _

theorem mem_eraseUser : u ∈ (C.eraseUser player).users ↔ u ∈ C.users ∧ u ≠ player := by
  rw [Channel.eraseUser, List.mem_filter, decide_eq_true_eq]

theorem chats_removeUserFromChannel (s : Server) (player channelId : ℕ) :
    Chats guid s (s.removeUserFromChannel guid guild player channelId) := by
  rw [Server.removeUserFromChannel]
  split
  · exact .refl s
  rename_i key _
  split
  · exact .refl s
  rename_i C' hC'
  obtain ⟨C, hC, hremove⟩ := Option.bind_eq_some_iff.mp hC'
  rw [Channel.removeUser] at hremove
  split at hremove
  · cases hremove
    have hput : Chats guid s (s.putChannel key (some (C.eraseUser player))) := by
      refine chats_putChannel fun D hD u hu => ?_
      cases hD
      exact .inl ⟨C, hC, stays_of_invites (mem_eraseUser.mp hu).1 rfl fun _ hg _ => hg⟩
    dsimp only
    split
    · exact hput.trans (chats_deleteChannel _ player channelId)
    · exact hput
  · cases hremove

/-- Two players who are online have different guids. -/
def Distinct (guid : ℕ → ℕ) (s : Server) : Prop :=
  ∀ p ∈ s.online, ∀ q ∈ s.online, guid p = guid q → p = q

theorem stays_excluded (hdistinct : Distinct guid s) (hu : u ∈ C.users) (huonline : u ∈ s.online)
    (hplayer : player ∈ s.online) (hne : u ≠ player) :
    Stays guid C ((C.removeInvite (guid player)).eraseUser player) u := by
  refine stays_of_invites hu rfl fun g hg hguid => ?_
  refine List.mem_filter.mpr ⟨hg, ?_⟩
  rw [hguid, decide_eq_true_eq]
  exact fun heq => hne (hdistinct u huonline player hplayer heq)

def Online (s : Server) : Prop := ∀ key C, s.channels key = some C → ∀ u ∈ C.users, u ∈ s.online

theorem removeAll_channel (h : (s.removeUserFromAllChannels guid player).channels key = some C') :
    ∃ C, s.channels key = some C ∧
      (C' = C.eraseUser player ∨ C' = (C.removeInvite (guid player)).eraseUser player) := by
  obtain ⟨C, hC, hleft⟩ := Option.bind_eq_some_iff.mp h
  refine ⟨C, hC, ?_⟩
  cases key with
  | privateChannel id =>
    dsimp only at hleft
    split at hleft
    · cases hleft
    · cases hleft
      exact .inr rfl
  | normalChannel id =>
    cases hleft
    exact .inl rfl
  | partyChannel party =>
    cases hleft
    exact .inl rfl
  | guildChannel guildId =>
    cases hleft
    exact .inl rfl

theorem removeAll_users (h : (s.removeUserFromAllChannels guid player).channels key = some C') :
    ∃ C, s.channels key = some C ∧ (u ∈ C'.users ↔ u ∈ C.users ∧ u ≠ player) := by
  obtain ⟨C, hC, hkind⟩ := removeAll_channel h
  refine ⟨C, hC, ?_⟩
  rcases hkind with rfl | rfl
  · exact mem_eraseUser
  · exact mem_eraseUser

theorem chats_removeAll (hdistinct : Distinct guid s) (honline : Online s)
    (hplayer : player ∈ s.online) : Chats guid s (s.removeUserFromAllChannels guid player) where
  world := rfl
  online := rfl
  users key C' hC' u hu := by
    obtain ⟨C, hC, hkind⟩ := removeAll_channel hC'
    refine .inl ⟨C, hC, ?_⟩
    rcases hkind with rfl | rfl
    · exact stays_of_invites (mem_eraseUser.mp hu).1 rfl fun _ hg _ => hg
    · obtain ⟨hu, hne⟩ := mem_eraseUser.mp hu
      exact stays_excluded hdistinct hu (honline key C hC u hu) hplayer hne

theorem chats_channelInvite (s : Server) (player invited : ℕ) :
    Chats guid s (s.playerChannelInvite guid player invited) := by
  rw [Server.playerChannelInvite]
  split
  · exact .refl s
  split
  · exact .refl s
  refine chats_putChannel fun C' hC' u hu => ?_
  obtain ⟨C, hC, rfl⟩ := Option.map_eq_some_iff.mp hC'
  refine .inl ⟨C, hC, ?_⟩
  rw [Channel.invitePlayer] at hu ⊢
  split
  · rename_i hmem
    rw [if_pos hmem] at hu
    exact ⟨hu, id⟩
  · rename_i hmem
    rw [if_neg hmem] at hu
    exact stays_of_invites hu rfl fun g hg _ => List.mem_cons_of_mem _ hg

theorem chats_channelExclude (hdistinct : Distinct guid s) (honline : Online s) {excluded : ℕ}
    (hexcluded : excluded ∈ s.online) (player : ℕ) : Chats guid s (s.playerChannelExclude guid player excluded) := by
  rw [Server.playerChannelExclude]
  split
  · exact .refl s
  split
  · exact .refl s
  refine chats_putChannel fun C' hC' u hu => ?_
  obtain ⟨C, hC, rfl⟩ := Option.map_eq_some_iff.mp hC'
  refine .inl ⟨C, hC, ?_⟩
  rw [Channel.excludePlayer] at hu ⊢
  split
  · rename_i hmem
    rw [if_pos hmem] at hu
    obtain ⟨hu, hne⟩ := mem_eraseUser.mp hu
    exact stays_excluded hdistinct hu (honline _ C hC u hu) hexcluded hne
  · rename_i hmem
    rw [if_neg hmem] at hu
    exact ⟨hu, id⟩

theorem createChannel_private {isPremium : Bool}
    (h : s.createChannel guid guild player channelPrivate isPremium = (some key, s')) :
    ∃ id, key = .privateChannel id ∧ s'.channels key = some { owner := guid player } := by
  rw [Server.createChannel] at h
  split at h
  · cases h
  rw [if_neg (by decide), if_neg (by decide), if_pos rfl] at h
  split at h
  · cases h
  split at h
  · rename_i id hfree
    cases h
    refine ⟨id, rfl, ?_⟩
    have hnone := List.find?_some hfree
    rw [Option.isNone_iff_eq_none] at hnone
    rw [Server.emplace, hnone, if_neg (by decide), putChannel_self]
  · cases h

theorem chats_createPrivateChannel (hplayer : player ∈ s.online) (isPremium : Bool) :
    Chats guid s (s.playerCreatePrivateChannel guid guild player isPremium) := by
  have hcreate : Chats guid s (s.createChannel guid guild player channelPrivate isPremium).2 :=
    chats_createChannel s player channelPrivate isPremium
  rw [Server.playerCreatePrivateChannel]
  split
  · exact .refl s
  split
  · rename_i s' heq
    rw [heq] at hcreate
    exact hcreate
  · rename_i key s' heq
    rw [heq] at hcreate
    obtain ⟨id, rfl, hchannel⟩ := createChannel_private heq
    refine hcreate.trans (chats_addUser fun C hC => ⟨?_, fun id' hid => ?_, fun party h => ?_⟩)
    · rw [hcreate.online]
      exact hplayer
    · rw [hchannel] at hC
      cases hC
      simp [Channel.isInvited]
    · cases h

end Chats

/-! ## One step -/

section Step

/-- What every legal step keeps. -/
structure Base (guid : ℕ → ℕ) (s : Server) : Prop where
  parties : Parties.Inv s.world
  distinct : Distinct guid s
  online : Online s
  invited : ∀ id C, s.channels (.privateChannel id) = some C → ∀ u ∈ C.users, C.isInvited (guid u) = true

def Members (s : Server) : Prop := ∀ party C, s.channels (.partyChannel party) = some C →
  ∀ u ∈ C.users, s.world.party u = some party

/-- A user of the channel of a party who loses the party is logging out. -/
def Quiet (s : Server) : Event → Prop
  | .party event => s.isOnline (.party event) = true → ∀ party C,
      s.channels (.partyChannel party) = some C → ∀ u ∈ C.users, s.world.Drops event u → event = .logout u
  | _ => True

theorem Base.chats (h : Base guid s) (hchats : Chats guid s s') : Base guid s' where
  parties := hchats.world ▸ h.parties
  distinct := by
    rw [Distinct, hchats.online]
    exact h.distinct
  online key C' hC' u hu := by
    rw [hchats.online]
    rcases hchats.users key C' hC' u hu with ⟨C, hC, hstays⟩ | hmay
    · exact h.online key C hC u hstays.user
    · exact hmay.online
  invited id C' hC' u hu := by
    rcases hchats.users _ C' hC' u hu with ⟨C, hC, hstays⟩ | hmay
    · exact hstays.invited (h.invited id C hC u hstays.user)
    · exact hmay.invited id rfl

theorem Members.chats (h : Members s) (hchats : Chats guid s s') : Members s' := by
  intro party C' hC' u hu
  rw [hchats.world]
  rcases hchats.users _ C' hC' u hu with ⟨C, hC, hstays⟩ | hmay
  · exact h party C hC u hstays.user
  · exact hmay.member party rfl

theorem chats_act (h : Base guid s) {event : Event} (honline : s.isOnline event = true)
    (hlogin : ∀ player, event ≠ .login player) (hparty : ∀ e, event ≠ .party e) :
    Chats guid s (s.act guid guild event) := by
  cases event with
  | login player => exact absurd rfl (hlogin player)
  | party e => exact absurd rfl (hparty e)
  | connect player =>
    exact chats_removeAll h.distinct h.online (by simpa [Server.isOnline] using honline)
  | requestChannels player => exact chats_getChannelList s player
  | openChannel player channelId =>
    exact chats_addUserToChannel (by simpa [Server.isOnline] using honline) channelId
  | closeChannel player channelId => exact chats_removeUserFromChannel s player channelId
  | createPrivateChannel player isPremium =>
    exact chats_createPrivateChannel (by simpa [Server.isOnline] using honline) isPremium
  | channelInvite player invited => exact chats_channelInvite s player invited
  | channelExclude player excluded =>
    have hboth : player ∈ s.online ∧ excluded ∈ s.online := by simpa [Server.isOnline] using honline
    exact chats_channelExclude h.distinct h.online hboth.2 player

theorem base_logout (h : Base guid s) (hplayer : player ∈ s.online) : Base guid (s.logout guid guild player) := by
  have hworld : Base guid { s with world := s.world.logout player } :=
    ⟨Parties.inv_step s.world (.logout player) h.parties trivial, h.distinct, h.online, h.invited⟩
  have hleft := hworld.chats (chats_removeAll hworld.distinct hworld.online hplayer)
  rw [logout_eq]
  refine ⟨hleft.parties, fun p hp q hq => ?_, fun key C' hC' u hu => ?_, hleft.invited⟩
  · exact h.distinct p (List.mem_of_mem_erase hp) q (List.mem_of_mem_erase hq)
  · obtain ⟨C, hC, husers⟩ := removeAll_users hC'
    obtain ⟨hu, hne⟩ := husers.mp hu
    exact (List.mem_erase_of_ne hne).mpr (h.online key C hC u hu)

theorem base_step (s : Server) (event : Event) (h : Base guid s) (hlegal : s.Legal guid event) :
    Base guid (s.step guid guild event) := by
  rw [Server.step]
  split
  · rename_i honline
    cases event with
    | login player =>
      obtain ⟨hnot, hguids⟩ := hlegal
      refine ⟨h.parties, fun p hp q hq hguid => ?_, fun key C hC u hu => ?_, h.invited⟩
      · rcases List.mem_cons.mp hp with hp' | hp'
        · rcases List.mem_cons.mp hq with hq' | hq'
          · exact hp'.trans hq'.symm
          · exact absurd (hguid.symm.trans (congrArg guid hp')) (hguids q hq')
        · rcases List.mem_cons.mp hq with hq' | hq'
          · exact absurd (hguid.trans (congrArg guid hq')) (hguids p hp')
          · exact h.distinct p hp' q hq' hguid
      · exact List.mem_cons_of_mem _ (h.online key C hC u hu)
    | party e =>
      rw [Server.act]
      by_cases hlogout : ∃ player, e = .logout player
      · obtain ⟨player, rfl⟩ := hlogout
        exact base_logout h (by simpa [Server.isOnline, players] using honline)
      · rw [partyStep_eq s fun player heq => hlogout ⟨player, heq⟩]
        exact ⟨Parties.inv_step s.world e h.parties hlegal, h.distinct, h.online, h.invited⟩
    | _ => exact h.chats (chats_act h honline (fun _ => by simp) fun _ => by simp)
  · exact h

theorem members_party {event : Parties.Event} (h : Base guid s) (hmembers : Members s)
    (honline : s.isOnline (.party event) = true) (hnot : ∀ player, event ≠ .logout player) :
    Members { s with world := s.world.step event } ↔ Quiet s (.party event) := by
  constructor
  · intro hafter _ party C hC u hu hdrops
    have hnone := (Parties.drops_iff h.parties event (hmembers party C hC u hu)).1 hdrops
    have hsome := hafter party C hC u hu
    rw [hnone] at hsome
    cases hsome
  · intro hquiet party C hC u hu
    refine (Parties.drops_iff h.parties event (hmembers party C hC u hu)).2 fun hdrops => ?_
    exact hnot u (hquiet honline party C hC u hu hdrops)

theorem members_logout (h : Base guid s) (hmembers : Members s)
    (honline : s.isOnline (.party (.logout player)) = true) :
    Members (s.logout guid guild player) ↔ Quiet s (.party (.logout player)) := by
  rw [logout_eq]
  constructor
  · intro hafter _ party C hC u hu hdrops
    by_contra hne
    have hne' : u ≠ player := fun heq => hne (by rw [heq])
    have hnone := (Parties.drops_iff h.parties _ (hmembers party C hC u hu)).1 hdrops
    have hsome := hafter party (C.eraseUser player) (by
      change (s.channels _).bind _ = _
      rw [hC]
      rfl) u (mem_eraseUser.mpr ⟨hu, hne'⟩)
    cases hnone.symm.trans hsome
  · intro hquiet party C' hC' u hu
    have hleft : (s.removeUserFromAllChannels guid player).channels (.partyChannel party) =
        some C' := hC'
    obtain ⟨C, hC, husers⟩ := removeAll_users hleft
    obtain ⟨hu, hne⟩ := husers.mp hu
    refine (Parties.drops_iff h.parties (.logout player) (hmembers party C hC u hu)).2 fun hdrops => hne ?_
    have heq := hquiet honline party C hC u hu hdrops
    cases heq
    rfl

/-- The users still follow the parties after a step if and only if it is quiet. -/
theorem members_step (s : Server) (event : Event) (h : Base guid s) (hmembers : Members s) :
    Members (s.step guid guild event) ↔ Quiet s event := by
  rw [Server.step]
  split
  · rename_i honline
    cases event with
    | login player => exact iff_of_true hmembers trivial
    | party e =>
      rw [Server.act]
      by_cases hlogout : ∃ player, e = .logout player
      · obtain ⟨player, rfl⟩ := hlogout
        exact members_logout h hmembers honline
      · have hnot : ∀ player, e ≠ .logout player := fun player heq => hlogout ⟨player, heq⟩
        rw [partyStep_eq s hnot]
        exact members_party h hmembers honline hnot
    | _ =>
      refine iff_of_true (hmembers.chats (chats_act h honline (fun _ => ?_) fun _ => ?_)) trivial
      · simp
      · simp
  · rename_i honline
    refine iff_of_true hmembers ?_
    cases event with
    | party e => exact fun h => absurd h honline
    | _ => trivial

end Step

/-! ## Runs -/

/-- The channels have no users but those who may be in them. -/
structure Follows (guid : ℕ → ℕ) (s : Server) : Prop where
  party : ∀ party C, s.channels (.partyChannel party) = some C → ∀ u ∈ C.users,
    ∃ P, s.world.parties party = some P ∧ (u = P.leader ∨ u ∈ P.memberList)
  privately : ∀ id C, s.channels (.privateChannel id) = some C → ∀ u ∈ C.users, guid u = C.owner ∨ guid u ∈ C.invites
  /-- Where a new party can be made, no users wait for it. -/
  unused : ∀ party C, s.world.parties party = none → s.channels (.partyChannel party) = some C → C.users = []
  offline : ∀ u, u ∉ s.online → ∀ key C, s.channels key = some C → u ∉ C.users

theorem Base.follows_iff (h : Base guid s) : Follows guid s ↔ Members s := by
  constructor
  · intro hfollows party C hC u hu
    exact (h.parties.pointer u party).mpr (hfollows.party party C hC u hu)
  · intro hmembers
    refine ⟨fun party C hC u hu => ?_, fun id C hC u hu => ?_, fun party C hnone hC => ?_,
      fun u hoffline key C hC hu => ?_⟩
    · exact (h.parties.pointer u party).mp (hmembers party C hC u hu)
    · simpa [Channel.isInvited] using h.invited id C hC u hu
    · rw [List.eq_nil_iff_forall_not_mem]
      intro u hu
      obtain ⟨P, hP, -⟩ := (h.parties.pointer u party).mp (hmembers party C hC u hu)
      rw [hnone] at hP
      cases hP
    · exact hoffline (h.online key C hC u hu)

theorem start_users (normalChannels : ℕ → Bool) (hC : (start normalChannels).channels key = some C) :
    C.users = [] := by
  cases key with
  | normalChannel id =>
    rw [start] at hC
    dsimp only at hC
    split at hC
    · cases hC
      rfl
    · cases hC
  | _ => cases hC

theorem base_start (guid : ℕ → ℕ) (normalChannels : ℕ → Bool) : Base guid (start normalChannels) where
  parties := Parties.inv_init
  distinct p hp := absurd hp List.not_mem_nil
  online key C hC u hu := by
    rw [start_users normalChannels hC] at hu
    cases hu
  invited id C hC u hu := by
    rw [start_users normalChannels hC] at hu
    cases hu

theorem members_start (normalChannels : ℕ → Bool) : Members (start normalChannels) := by
  intro party C hC u hu
  rw [start_users normalChannels hC] at hu
  cases hu

theorem base_reached (guid : ℕ → ℕ) (guild : ℕ → Option ℕ) (normalChannels : ℕ → Bool)
    (events : List Event) (hlegal : Along (Server.step guid guild) (Server.Legal guid) (start normalChannels) events) :
    ∀ before, before <+: events → Base guid (run (Server.step guid guild) (start normalChannels) before) :=
  inv_reached base_step (base_start guid normalChannels) hlegal

/-- The channels follow the groups through a run if and only if all its steps are quiet. -/
theorem channels_follow_iff (guid : ℕ → ℕ) (guild : ℕ → Option ℕ) (normalChannels : ℕ → Bool)
    (events : List Event) (hlegal : Along (Server.step guid guild) (Server.Legal guid) (start normalChannels) events) :
    (∀ before, before <+: events → Follows guid (run (Server.step guid guild) (start normalChannels) before)) ↔
        Along (Server.step guid guild) Quiet (start normalChannels) events := by
  have hbase := base_reached guid guild normalChannels events hlegal
  have hfollows : (∀ before, before <+: events →
      Follows guid (run (Server.step guid guild) (start normalChannels) before)) ↔ ∀ before, before <+: events →
          Members (run (Server.step guid guild) (start normalChannels) before) := by
    refine forall_congr' fun before => forall_congr' fun hbefore => ?_
    exact (hbase before hbefore).follows_iff
  rw [hfollows]
  exact inv_reached_iff_of_legal base_step (fun s event h hmembers _ => members_step s event h hmembers)
    (base_start guid normalChannels) (members_start normalChannels) hlegal

/-! ## Examples -/

/-- Two players form a party, talk in its channel and in a private one, and one leaves a channel. -/
def evening : List Event :=
  [.login 1, .login 2, .party (.invite 1 2 100), .party (.join 2 1), .requestChannels 1,
    .openChannel 1 1, .openChannel 2 1, .party (.passLeadership 1 2), .createPrivateChannel 1 true,
    .channelInvite 1 2, .openChannel 2 100, .channelExclude 1 2, .closeChannel 2 1]

theorem evening_follows : Along (Server.step id fun _ => none) Quiet (start fun id => id = 3) evening ∧
      ∀ before, before <+: evening →
        Follows id (run (Server.step id fun _ => none) (start fun id => id = 3) before) := by
  have hlegal : Along (Server.step id fun _ => none) (Server.Legal id) (start fun id => id = 3)
      evening := by
    refine ⟨⟨by decide, by decide⟩, ⟨by decide, by decide⟩, rfl, trivial, trivial, trivial, trivial,
      trivial, trivial, trivial, trivial, trivial, trivial, trivial⟩
  have hquiet : Along (Server.step id fun _ => none) Quiet (start fun id => id = 3) evening := by
    refine ⟨trivial, trivial, ?_, ?_, trivial, trivial, trivial, ?_, trivial, trivial, trivial,
      trivial, trivial, trivial⟩
    · exact fun _ _ _ _ _ _ hdrops => False.elim hdrops
    · exact fun _ _ _ _ _ _ hdrops => False.elim hdrops
    · exact fun _ _ _ _ _ _ hdrops => False.elim hdrops
  exact ⟨hquiet, (channels_follow_iff id (fun _ => none) (fun id => id = 3) evening hlegal).mpr hquiet⟩

/-- A member leaves his party, which ends, and another is made at the same address. -/
def reused : List Event :=
  [.login 1, .login 2, .login 3, .login 4, .party (.invite 1 2 100), .party (.join 2 1),
    .requestChannels 2, .openChannel 2 1, .party (.leave 2 false), .party (.invite 3 4 100)]

/-- He is in the channel of the new party. -/
theorem reused_party_has_a_stranger :
    let server := run (Server.step id fun _ => none) (start fun _ => false) reused
    Along (Server.step id fun _ => none) (Server.Legal id) (start fun _ => false) reused ∧
      server.channels (.partyChannel 100) = some { users := [2] } ∧
      server.world.party 2 = none ∧ ¬ Follows id server := by
  intro server
  refine ⟨?_, rfl, rfl, fun h => ?_⟩
  · exact ⟨⟨by decide, by decide⟩, ⟨by decide, by decide⟩, ⟨by decide, by decide⟩,
      ⟨by decide, by decide⟩, rfl, trivial, trivial, trivial, trivial, rfl, trivial⟩
  · obtain ⟨P, hP, hin⟩ := h.party 100 { users := [2] } rfl 2 List.mem_cons_self
    have hparty : server.world.parties 100 = some { leader := 3, inviteList := [4] } := rfl
    cases hparty.symm.trans hP
    rcases hin with hin | hin
    · cases hin
    · cases hin

end ForgottenServer.Chat
