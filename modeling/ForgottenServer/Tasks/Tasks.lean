import Mathlib.Algebra.Order.Group.Unbundled.Int
import Mathlib.Algebra.Ring.Nat
import Mathlib.Logic.Function.Basic

/-! # Hunting tasks

`TaskSystem` keeps a state and a number of kills for each task, and the number of
active tasks, in the storage values of a player. Texts that are only shown to the
player are left out. -/
namespace ForgottenServer.Tasks

/-! ## Storage values -/

/-- The values of a player by their keys. -/
abbrev Storage := ℕ → Option ℤ

/-- The `uint32_t` that a key becomes. -/
def storageKey (key : ℤ) : ℕ := (key % 2 ^ 32).toNat

/-- The keys that a script may not write. -/
def isReserved (key : ℕ) : Bool := 10000000 ≤ key && key - 10000000 ≤ 10000000

def getStorageValue (s : Storage) (key : ℤ) : ℤ := (s (storageKey key)).getD (-1)

/-- `setStorageValue`: the value has 32 bits, and -1 erases it. -/
def setStorageValue (s : Storage) (key value : ℤ) : Storage :=
  let value := Int.bmod value (2 ^ 32)
  if isReserved (storageKey key) then s
  else Function.update s (storageKey key) (if value ≠ -1 then some value else none)

/-! ## The task table -/

/-- `TIER_BEGINNER` to `TIER_MASTER`. -/
inductive Tier
  | beginner | intermediate | advanced | expert | master
  deriving DecidableEq, Repr

/-- `TIER_LEVEL_RANGES[tier].min`. -/
def Tier.min : Tier → ℕ
  | .beginner => 1
  | .intermediate => 30
  | .advanced => 80
  | .expert => 150
  | .master => 250

structure Task where
  id : ℤ
  name : String
  tier : Tier := .beginner
  monster : String
  killCount : ℤ
  xpReward : ℤ := 0
  goldReward : ℤ := 0
  itemReward : Option (ℕ × ℕ) := none
  taskPoints : ℤ := 0
  deriving DecidableEq

def maxActiveTasks : ℤ := 3

def stateNone : ℤ := 0

def stateActive : ℤ := 1

def stateCompleted : ℤ := 2

/-- `tasksById`. -/
def tasksById (tasks : List Task) (taskId : ℤ) : Option Task := tasks.find? fun t => t.id = taskId

/-- `tasksByMonster`, for a name in lower case. -/
def tasksByMonster (tasks : List Task) (key : String) : List Task :=
  tasks.filter fun t => t.monster.toLower = key

/-! ## Helpers -/

def stateKey (taskId : ℤ) : ℤ := 50000 + taskId

def progressKey (taskId : ℤ) : ℤ := 51000 + taskId

def activeCountKey : ℤ := 52000

def taskPointsKey : ℤ := 52001

/-- A value that is not set, or negative, counts as 0. -/
def getCounted (s : Storage) (key : ℤ) : ℤ := if getStorageValue s key < 0 then 0 else getStorageValue s key

def getTaskState (s : Storage) (taskId : ℤ) : ℤ := getCounted s (stateKey taskId)

def setTaskState (s : Storage) (taskId state : ℤ) : Storage :=
  setStorageValue s (stateKey taskId) state

def getTaskProgress (s : Storage) (taskId : ℤ) : ℤ := getCounted s (progressKey taskId)

def setTaskProgress (s : Storage) (taskId value : ℤ) : Storage :=
  setStorageValue s (progressKey taskId) value

def getActiveTaskCount (s : Storage) : ℤ := getCounted s activeCountKey

def setActiveTaskCount (s : Storage) (count : ℤ) : Storage := setStorageValue s activeCountKey count

def getTaskPoints (s : Storage) : ℤ := getCounted s taskPointsKey

def addTaskPoints (s : Storage) (points : ℤ) : Storage :=
  setStorageValue s taskPointsKey (getTaskPoints s + points)

/-! ## Core functions -/

abbrev Answer := Bool × String

variable (tasks : List Task)

def acceptTask (level : ℕ) (s : Storage) (taskId : ℤ) : Storage × Answer :=
  match tasksById tasks taskId with
  | none => (s, false, "Task not found.")
  | some task =>
    if getTaskState s taskId = stateActive then (s, false, "You already have this task active.")
    else if getTaskState s taskId = stateCompleted then
      (s, false, "You have already completed this task.")
    else if level < task.tier.min then
      (s, false, "You need to be at least level " ++ toString task.tier.min ++ " for this task.")
    else
      let activeCount := getActiveTaskCount s
      if maxActiveTasks ≤ activeCount then
        (s, false, "You already have " ++ toString maxActiveTasks ++ " active tasks. Complete or cancel one first.")
      else
        let s := setTaskState s taskId stateActive
        let s := setTaskProgress s taskId 0
        (setActiveTaskCount s (activeCount + 1), true, "")

/-- One turn of the loop of `onKill`: an active task counts the kill. -/
def countKill (acc : Storage × List (Task × Bool)) (task : Task) : Storage × List (Task × Bool) :=
  let (s, results) := acc
  if getTaskState s task.id = stateActive then
    let progress := getTaskProgress s task.id + 1
    (setTaskProgress s task.id progress, results ++ [(task, decide (task.killCount ≤ progress))])
  else (s, results)

def onKill (s : Storage) (monsterName : String) : Storage × List (Task × Bool) :=
  (tasksByMonster tasks monsterName.toLower).foldl countKill (s, [])

/-- `completeTask`, with the task whose rewards are paid. -/
def completeTask (s : Storage) (taskId : ℤ) : Storage × Answer × Option Task :=
  match tasksById tasks taskId with
  | none => (s, (false, "Task not found."), none)
  | some task =>
    if getTaskState s taskId ≠ stateActive then (s, (false, "This task is not active."), none)
    else
      let progress := getTaskProgress s taskId
      if progress < task.killCount then
        (s, (false, "Task not yet complete: " ++ toString progress ++ "/" ++ toString task.killCount ++ " kills."),
          none)
      else
        let s := setTaskState s taskId stateCompleted
        let s := setActiveTaskCount s (max 0 (getActiveTaskCount s - 1))
        (addTaskPoints s task.taskPoints, (true, ""), some task)

def cancelTask (s : Storage) (taskId : ℤ) : Storage × Answer :=
  match tasksById tasks taskId with
  | none => (s, false, "Task not found.")
  | some _ =>
    if getTaskState s taskId ≠ stateActive then (s, false, "This task is not active.")
    else
      let s := setTaskState s taskId stateNone
      let s := setTaskProgress s taskId 0
      (setActiveTaskCount s (max 0 (getActiveTaskCount s - 1)), true, "")

inductive Call
  | acceptTask (level : ℕ) (taskId : ℤ)
  | onKill (monsterName : String)
  | completeTask (taskId : ℤ)
  | cancelTask (taskId : ℤ)

/-- The storage values of a player, with what has been seen of them: the kills
since a task was last accepted, and each task that was paid with those kills. -/
structure Player where
  storage : Storage := fun _ => none
  kills : ℤ → ℕ := fun _ => 0
  paid : List (Task × ℕ) := []

def step (p : Player) : Call → Player
  | .acceptTask level taskId =>
    let (storage, accepted, _) := acceptTask tasks level p.storage taskId
    { p with storage, kills := if accepted then Function.update p.kills taskId 0 else p.kills }
  | .onKill monsterName =>
    { p with
      storage := (onKill tasks p.storage monsterName).1
      kills := fun taskId => p.kills taskId +
        if ∃ t ∈ tasks, t.id = taskId ∧ t.monster.toLower = monsterName.toLower then 1 else 0 }
  | .completeTask taskId =>
    let (storage, _, rewarded) := completeTask tasks p.storage taskId
    { p with storage, paid := p.paid ++ rewarded.toList.map fun t => (t, p.kills taskId) }
  | .cancelTask taskId => { p with storage := (cancelTask tasks p.storage taskId).1 }

end ForgottenServer.Tasks
