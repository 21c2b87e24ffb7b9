import ForgottenServer.Maps.Map

/-! # What a player can see

`ProtocolGame::canSee` decides by the position and by the creature. -/
namespace ForgottenServer.Net
open ForgottenServer.Maps (Position)

structure Creature where
  id : ℕ
  position : Position := {}
  isRemoved : Bool := false
  isPlayer : Bool := false
  isInGhostMode : Bool := false
  isInvisible : Bool := false
  deriving DecidableEq

structure Player extends Creature where
  access : Bool := false
  /-- `PlayerFlag_CanSenseInvisibility` -/
  canSenseInvisibility : Bool := false

/-- The creatures of a game, each kind with the last id that was given out. -/
structure Game where
  players : ℕ → Option Creature := fun _ => none
  monsters : ℕ → Option Creature := fun _ => none
  npcs : ℕ → Option Creature := fun _ => none
  playerAutoID : ℕ := 0x10000000
  monsterAutoID : ℕ := 0x40000000
  npcAutoID : ℕ := 0x80000000

def Game.getCreatureByID (game : Game) (id : ℕ) : Option Creature :=
  if id ≤ game.playerAutoID then
    if id = 0 then none else game.players id
  else if id ≤ game.monsterAutoID then
    if id = 0 then none else game.monsters id
  else if id ≤ game.npcAutoID then
    if id = 0 then none else game.npcs id
  else none

theorem Game.getCreatureByID_zero (game : Game) : game.getCreatureByID 0 = none := by
  unfold getCreatureByID
  rw [if_pos (Nat.zero_le _), if_pos rfl]

namespace Player

def canSeeInvisibility (player : Player) : Bool := player.canSenseInvisibility || player.access

def canSeeCreature (player : Player) (creature : Creature) : Bool :=
  if creature.id = player.id then true
  else if creature.isInGhostMode && !player.access then false
  else if !creature.isPlayer && !player.canSeeInvisibility && creature.isInvisible then false
  else true

end Player

/-- `ProtocolGame::canSee` of a position. -/
def canSee (player : Option Player) (x y z : ℤ) : Bool :=
  match player with
  | none => false
  | some player =>
    let myX : ℤ := player.position.x.toNat
    let myY : ℤ := player.position.y.toNat
    let myZ : ℤ := player.position.z.toNat
    if myZ ≤ 7 ∧ 7 < z then false
    else if ¬ myZ ≤ 7 ∧ 2 < |myZ - z| then false
    else
      let offsetz := myZ - z
      myX - 8 + offsetz ≤ x && x ≤ myX + 9 + offsetz && myY - 6 + offsetz ≤ y && y ≤ myY + 7 + offsetz

/-- `ProtocolGame::canSee` of a creature. -/
def canSeeCreature (player : Option Player) (c : Option Creature) : Bool :=
  match c, player with
  | some c, some p =>
    if c.isRemoved then false
    else if !p.canSeeCreature c then false
    else canSee player c.position.x.toNat c.position.y.toNat c.position.z.toNat
  | _, _ => false

end ForgottenServer.Net
