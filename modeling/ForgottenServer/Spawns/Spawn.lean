import ForgottenServer.Maps.Map

/-! # Spawns

A spawn has slots with the ids from 1 on. `spawnedMap` has the monsters of the
slots, and under the key 0 those that have left the zone. A check fills empty slots
and asks for the next check. -/
namespace ForgottenServer.Spawns
open ForgottenServer.Maps (Position)

/-- `spawnBlock_t`, without what is only passed on. -/
structure SpawnBlock where
  interval : ℕ := 60000
  lastSpawn : ℤ := 0

structure Monster where
  id : ℕ
  position : Position := {}
  isRemoved : Bool := false

structure Spawn where
  centerPos : Position := {}
  radius : ℤ := -1
  /-- the number of slots -/
  size : ℕ
  spawnMap : ℕ → SpawnBlock := fun _ => {}
  spawnedMap : List (ℕ × Monster) := []
  /-- an event is scheduled -/
  checkSpawnEvent : Bool := false

/-- What a check meets: the times that it reads, in the cleanup (0) and at the turn of
each slot, whether a player is near a slot, and the monster that is placed. -/
structure Check where
  clock : ℕ → ℤ
  rateSpawn : ℕ
  findPlayer : ℕ → Bool
  placed : ℕ → Option (ℕ × Position)

def isInZone (centerPos : Position) (radius : ℤ) (pos : Position) : Bool :=
  if radius = -1 then true
  else
    (centerPos.x.toNat - radius ≤ pos.x.toNat && pos.x.toNat ≤ centerPos.x.toNat + radius) &&
      (centerPos.y.toNat - radius ≤ pos.y.toNat && pos.y.toNat ≤ centerPos.y.toNat + radius)

namespace Spawn

def isInSpawnZone (s : Spawn) (pos : Position) : Bool := isInZone s.centerPos s.radius pos

def startSpawnCheck (s : Spawn) : Spawn :=
  if s.checkSpawnEvent then s else { s with checkSpawnEvent := true }

def insert (s : Spawn) (entry : ℕ × Monster) : Spawn :=
  { s with spawnedMap := s.spawnedMap ++ [entry] }

def setLastSpawn (s : Spawn) (spawnId : ℕ) (now : ℤ) : Spawn :=
  { s with spawnMap := Function.update s.spawnMap spawnId { s.spawnMap spawnId with lastSpawn := now } }

/-- `spawnedMap.find(spawnId) != spawnedMap.end()` -/
def occupied (s : Spawn) (spawnId : ℕ) : Bool := s.spawnedMap.any fun e => e.1 = spawnId

/-- One turn of the loop of `cleanup`: the entry is erased, goes to the key 0 or stays. -/
def cleanupEntry (now : ℤ) (s : Spawn) (entry : ℕ × Monster) : Spawn :=
  if entry.2.isRemoved then
    if entry.1 ≠ 0 then s.setLastSpawn entry.1 now else s
  else if !s.isInSpawnZone entry.2.position && entry.1 ≠ 0 then s.insert (0, entry.2)
  else s.insert entry

def cleanup (s : Spawn) (now : ℤ) : Spawn :=
  s.spawnedMap.foldl (cleanupEntry now) { s with spawnedMap := [] }

def spawnMonster (s : Spawn) (c : Check) (spawnId : ℕ) : Spawn :=
  match c.placed spawnId with
  | none => s
  | some (id, position) =>
    (s.insert (spawnId, { id, position })).setLastSpawn spawnId (c.clock spawnId)

/-- The loop of `checkSpawn` over the slots that are left. -/
def checkSlots (c : Check) : List ℕ → ℕ → Spawn → Spawn
  | [], _, s => s
  | spawnId :: rest, spawnCount, s =>
    if s.occupied spawnId then checkSlots c rest spawnCount s
    else if (s.spawnMap spawnId).lastSpawn + (s.spawnMap spawnId).interval ≤ c.clock spawnId then
      if c.findPlayer spawnId then checkSlots c rest spawnCount (s.setLastSpawn spawnId (c.clock spawnId))
      else if c.rateSpawn ≤ spawnCount + 1 then s.spawnMonster c spawnId
      else checkSlots c rest (spawnCount + 1) (s.spawnMonster c spawnId)
    else checkSlots c rest spawnCount s

/-- The ids of the slots. -/
def ids (s : Spawn) : List ℕ := List.range' 1 s.size

def checkSpawn (s : Spawn) (c : Check) : Spawn :=
  let s := { s with checkSpawnEvent := false }
  let s := s.cleanup (c.clock 0)
  let s := checkSlots c s.ids 0 s
  if s.spawnedMap.length < s.size then { s with checkSpawnEvent := true } else s

/-- The first entry of the monster is erased. -/
def removeMonster (s : Spawn) (monster : ℕ) : Spawn :=
  { s with spawnedMap := s.spawnedMap.eraseP fun e => e.2.id = monster }

/-- A monster changes; its pointers in the map stay. -/
def modifyMonster (s : Spawn) (monster : ℕ) (f : Monster → Monster) : Spawn :=
  { s with spawnedMap := s.spawnedMap.map fun e => if e.2.id = monster then (e.1, f e.2) else e }

end Spawn

inductive Event
  /-- `onRemoveCreature` of a monster: it is removed, and a check is started -/
  | death (monster : ℕ)
  | walk (monster : ℕ) (position : Position)
  | removeMonster (monster : ℕ)
  | checkSpawn (c : Check)

def Spawn.step (s : Spawn) : Event → Spawn
  | .death monster =>
    (s.modifyMonster monster fun m => { m with isRemoved := true }).startSpawnCheck
  | .walk monster position => s.modifyMonster monster fun m => { m with position }
  | .removeMonster monster => s.removeMonster monster
  | .checkSpawn c => s.checkSpawn c

/-- Every slot has a monster. -/
def Spawn.filled (centerPos : Position) (radius : ℤ) (size : ℕ) (spawnMap : ℕ → SpawnBlock)
    (placed : ℕ → ℕ × Position) : Spawn :=
  { centerPos, radius, size, spawnMap
    spawnedMap := (List.range' 1 size).map fun spawnId =>
      (spawnId, { id := (placed spawnId).1, position := (placed spawnId).2 }) }

end ForgottenServer.Spawns
