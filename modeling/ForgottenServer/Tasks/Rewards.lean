import ForgottenServer.Tasks.Counting

/-! # Rewards of hunting tasks

Over a run from a fresh player, the counter of active tasks is their number, and a
task is paid once, after the kills that it asks for. -/
namespace ForgottenServer.Tasks
open ForgottenServer.Lib.Run TaskTable

/-- What the values of a player say about the table. -/
structure Sound (tasks : List Task) (p : Player) : Prop where
  count : getActiveTaskCount p.storage = activeCount tasks p.storage
  limit : getActiveTaskCount p.storage ≤ maxActiveTasks
  killed : ∀ r ∈ p.paid, r.1.killCount ≤ r.2
  once : (p.paid.map fun r => r.1.id).Nodup

/-- With it, the counted kills happened, and what was paid is complete. -/
structure Inv (T : TaskTable) (p : Player) : Prop extends Sound T.tasks p where
  counted : ∀ t ∈ T.tasks, getTaskState p.storage t.id = stateActive → getTaskProgress p.storage t.id ≤ p.kills t.id
  completed : ∀ r ∈ p.paid, r.1 ∈ T.tasks ∧ getTaskState p.storage r.1.id = stateCompleted

variable {T : TaskTable}

theorem inv_init (T : TaskTable) : Inv T {} where
  count := by
    have hstate : ∀ taskId, getTaskState (fun _ => none) taskId = 0 := fun _ => rfl
    have hnone : activeCount T.tasks (fun _ => none) = 0 := by
      rw [activeCount, List.countP_eq_zero]
      intro t _
      rw [hstate]
      decide
    change getActiveTaskCount (fun _ => none) = (activeCount T.tasks (fun _ => none) : ℤ)
    rw [hnone]
    rfl
  limit := by decide
  killed := by simp
  once := List.nodup_nil
  counted t _ h := by
    change (0 : ℤ) = 1 at h
    exact absurd h (by decide)
  completed := by simp

theorem step_acceptTask (tasks : List Task) (p : Player) (level : ℕ) (taskId : ℤ) :
    step tasks p (.acceptTask level taskId) =
      { p with
        storage := (acceptTask tasks level p.storage taskId).1
        kills := if (acceptTask tasks level p.storage taskId).2.1 then
          Function.update p.kills taskId 0
          else p.kills } := rfl

theorem step_onKill (tasks : List Task) (p : Player) (monsterName : String) :
    (step tasks p (.onKill monsterName)).storage = (onKill tasks p.storage monsterName).1 := rfl

theorem step_completeTask (tasks : List Task) (p : Player) (taskId : ℤ) : step tasks p (.completeTask taskId) =
      { p with
        storage := (completeTask tasks p.storage taskId).1
        paid := p.paid ++ (completeTask tasks p.storage taskId).2.2.toList.map fun t => (t, p.kills taskId) } := rfl

theorem Inv.same {p : Player} (h : Inv T p) : Inv T { p with paid := p.paid ++ [] } := by
  rw [List.append_nil]
  exact h

theorem inv_acceptTask {p : Player} (h : Inv T p) (level : ℕ) (taskId : ℤ) :
    Inv T (step T.tasks p (.acceptTask level taskId)) := by
  rw [step_acceptTask]
  obtain ⟨hsame, hno⟩ | ⟨t, ht, rfl, hactive, hcompleted, hroom, hyes, hmoves, hzero⟩ :=
    acceptTask_cases T level p.storage taskId
  · rw [hsame, hno]
    exact h
  have hcount := hmoves.activeCount ht
  rw [decide_eq_false hactive, decide_eq_true rfl] at hcount
  rw [hyes]
  refine ⟨⟨?_, ?_, h.killed, h.once⟩, fun u hu hstate => ?_, fun r hr => ?_⟩
  · have hold := h.count
    rw [hmoves.count, hold]
    simp only [Bool.toNat_false, Bool.toNat_true] at hcount
    dsimp only
    omega
  · rw [hmoves.count]
    omega
  · by_cases hne : u = t
    · rw [hne]
      exact hzero.trans (Int.natCast_nonneg _)
    · have hid : u.id ≠ t.id := fun hid => hne (T.eq_of_id_eq hu ht hid)
      have hcounted := h.counted u hu (hmoves.states u hu hne ▸ hstate)
      change _ ≤ ((Function.update p.kills t.id 0 u.id : ℕ) : ℤ)
      rw [hmoves.progresses u hu hne, Function.update_of_ne hid]
      exact hcounted
  · obtain ⟨hr, hstate⟩ := h.completed r hr
    have hne : r.1 ≠ t := fun heq => hcompleted (heq ▸ hstate)
    exact ⟨hr, (hmoves.states _ hr hne).trans hstate⟩

theorem inv_onKill {p : Player} (h : Inv T p) (monsterName : String) :
    Inv T (step T.tasks p (.onKill monsterName)) := by
  have hcounts := onKill_counts T p.storage monsterName
  refine ⟨⟨?_, ?_, h.killed, h.once⟩, fun u hu hstate => ?_, fun r hr => ?_⟩
  · rw [step, hcounts.count, hcounts.activeCount]
    exact h.count
  · rw [step, hcounts.count]
    exact h.limit
  · have hold := h.counted u hu (hcounts.states u hu ▸ hstate)
    have hone := hcounts.progresses u hu
    rw [step]
    dsimp only
    -- a task whose progress grew is one of the monster's, and so its kill is seen
    by_cases hmonster : u ∈ tasksByMonster T.tasks monsterName.toLower
    · have hname : u.monster.toLower = monsterName.toLower := by
        simpa using (List.mem_filter.mp hmonster).2
      rw [if_pos hmonster] at hone
      rw [if_pos ⟨u, hu, rfl, hname⟩]
      push_cast
      omega
    · rw [if_neg hmonster] at hone
      push_cast
      split <;> omega
  · obtain ⟨hr, hstate⟩ := h.completed r hr
    exact ⟨hr, (hcounts.states _ hr).trans hstate⟩

theorem Inv.stops {p : Player} (h : Inv T p) {t : Task} {state : ℤ} {s' : Storage} (ht : t ∈ T.tasks)
    (hactive : getTaskState p.storage t.id = stateActive) (hstate : state ≠ stateActive)
    (hmoves : Moves T t state (max 0 (getActiveTaskCount p.storage - 1)) p.storage s') :
    getActiveTaskCount s' = activeCount T.tasks s' ∧ getActiveTaskCount s' ≤ maxActiveTasks := by
  have hcount := hmoves.activeCount ht
  rw [decide_eq_true hactive, decide_eq_false hstate] at hcount
  have hold := h.count
  have hlimit := h.limit
  have hnew := hmoves.count
  simp only [Bool.toNat_false, Bool.toNat_true] at hcount
  omega

theorem inv_completeTask {p : Player} (h : Inv T p) (taskId : ℤ) : Inv T (step T.tasks p (.completeTask taskId)) := by
  rw [step_completeTask]
  obtain ⟨hsame, hno⟩ | ⟨t, ht, rfl, hactive, hkills, hyes, hmoves⟩ :=
    completeTask_cases T p.storage taskId h.limit
  · rw [hsame, hno]
    exact h.same
  obtain ⟨hcount, hlimit⟩ := h.stops ht hactive (by decide) hmoves
  have hne : ∀ r ∈ p.paid, r.1 ≠ t := fun r hr heq => by
    have hcompleted := (h.completed r hr).2
    rw [heq, hactive] at hcompleted
    exact absurd hcompleted (by decide)
  rw [hyes]
  refine ⟨⟨hcount, hlimit, fun r hr => ?_, ?_⟩, fun u hu hstate => ?_, fun r hr => ?_⟩
  · obtain hr | hr := List.mem_append.mp hr
    · exact h.killed r hr
    · obtain rfl := List.mem_singleton.mp hr
      exact hkills.trans (h.counted t ht hactive)
  · change ((p.paid ++ [(t, p.kills t.id)]).map fun r => r.1.id).Nodup
    rw [List.map_append, List.nodup_append]
    refine ⟨h.once, List.nodup_singleton _, fun i hi j hj => ?_⟩
    obtain ⟨r, hr, rfl⟩ := List.mem_map.mp hi
    obtain rfl := List.mem_singleton.mp hj
    exact fun hid => hne r hr (T.eq_of_id_eq (h.completed r hr).1 ht hid)
  · have hut : u ≠ t := fun heq => by
      rw [heq, hmoves.state] at hstate
      exact absurd hstate (by decide)
    rw [hmoves.progresses u hu hut]
    exact h.counted u hu (hmoves.states u hu hut ▸ hstate)
  · obtain hr | hr := List.mem_append.mp hr
    · obtain ⟨hr', hstate⟩ := h.completed r hr
      exact ⟨hr', (hmoves.states _ hr' (hne r hr)).trans hstate⟩
    · obtain rfl := List.mem_singleton.mp hr
      exact ⟨ht, hmoves.state⟩

theorem inv_cancelTask {p : Player} (h : Inv T p) (taskId : ℤ) : Inv T (step T.tasks p (.cancelTask taskId)) := by
  rw [step]
  obtain hsame | ⟨t, ht, rfl, hactive, hmoves⟩ := cancelTask_cases T p.storage taskId h.limit
  · rw [hsame]
    exact h
  obtain ⟨hcount, hlimit⟩ := h.stops ht hactive (by decide) hmoves
  refine ⟨⟨hcount, hlimit, h.killed, h.once⟩, fun u hu hstate => ?_, fun r hr => ?_⟩
  · have hut : u ≠ t := fun heq => by
      rw [heq, hmoves.state] at hstate
      exact absurd hstate (by decide)
    rw [hmoves.progresses u hu hut]
    exact h.counted u hu (hmoves.states u hu hut ▸ hstate)
  · obtain ⟨hr, hstate⟩ := h.completed r hr
    have hne : r.1 ≠ t := fun heq => by
      rw [heq, hactive] at hstate
      exact absurd hstate (by decide)
    exact ⟨hr, (hmoves.states _ hr hne).trans hstate⟩

theorem inv_step (T : TaskTable) (p : Player) (call : Call) (h : Inv T p) : Inv T (step T.tasks p call) := by
  cases call with
  | acceptTask level taskId => exact inv_acceptTask h level taskId
  | onKill monsterName => exact inv_onKill h monsterName
  | completeTask taskId => exact inv_completeTask h taskId
  | cancelTask taskId => exact inv_cancelTask h taskId

theorem inv_calls (T : TaskTable) (calls : List Call) : Inv T (run (step T.tasks) {} calls) := by
  have hall : Along (step T.tasks) (fun _ _ => True) {} calls := Along.of_forall fun _ _ => trivial
  exact inv_run (fun p call h _ => inv_step T p call h) (inv_init T) hall

theorem tasks_are_paid_once (T : TaskTable) (calls : List Call) : Sound T.tasks (run (step T.tasks) {} calls) :=
  (inv_calls T calls).toSound

/-- The kill of a rat writes the progress of task 1 where task 1001 keeps its state. -/
theorem keys_can_meet :
    let tasks : List Task := [⟨1, "Rats", .beginner, "Rat", 10, 0, 0, none, 0⟩,
      ⟨1001, "More rats", .beginner, "Rat", 10, 0, 0, none, 0⟩]
    (tasks.map fun t => t.id).Nodup ∧ ¬ Sound tasks (run (step tasks) {} [.acceptTask 1 1, .onKill "Rat"]) := by
  intro tasks
  have hall : tasksByMonster tasks "Rat".toLower = tasks := by simp [tasksByMonster, tasks]
  have hkill : ∀ s, onKill tasks s "Rat" = tasks.foldl countKill (s, []) :=
    fun s => by rw [onKill, hall]
  refine ⟨by decide, fun h => ?_⟩
  have hcount := h.count
  rw [run_cons, run_cons, run_nil, step_onKill, hkill] at hcount
  exact absurd hcount (by decide)

/-! ## The layout of the storage keys -/

section Layout
variable {tasks : List Task}

theorem storageKeys_eq (hroom : ∀ t ∈ tasks, 0 ≤ t.id ∧ t.id < 1000) (t : Task) (ht : t ∈ tasks) :
    storageKey (stateKey t.id) = 50000 + t.id.toNat ∧
      storageKey (progressKey t.id) = 51000 + t.id.toNat ∧ t.id.toNat < 1000 := by
  obtain ⟨hlow, hhigh⟩ := hroom t ht
  rw [storageKey, storageKey, stateKey, progressKey, Int.emod_eq_of_lt (by omega) (by omega),
    Int.emod_eq_of_lt (by omega) (by omega)]
  omega

theorem mem_totals (key : ℕ) : key ∈ [storageKey activeCountKey, storageKey taskPointsKey] ↔
    key = 52000 ∨ key = 52001 := by
  rw [List.mem_cons, List.mem_singleton]
  rfl

theorem taskKeys_nodup (hids : (tasks.map fun t => t.id).Nodup)
    (hroom : ∀ t ∈ tasks, 0 ≤ t.id ∧ t.id < 1000) : (taskKeys tasks).Nodup := by
  have hkey := storageKeys_eq hroom
  have hinj : ∀ t ∈ tasks, ∀ u ∈ tasks, t.id.toNat = u.id.toNat → t = u := fun t ht u hu heq => by
    have hlow := (hroom t ht).1
    have hlow' := (hroom u hu).1
    exact List.inj_on_of_nodup_map hids ht hu (by omega)
  rw [taskKeys, List.nodup_append, List.nodup_append]
  refine ⟨?_, ⟨?_, by decide, ?_⟩, ?_⟩
  · refine hids.of_map.map_on fun t ht u hu heq => hinj t ht u hu ?_
    have hstate := (hkey t ht).1
    have hstate' := (hkey u hu).1
    omega
  · refine hids.of_map.map_on fun t ht u hu heq => hinj t ht u hu ?_
    have hprogress := (hkey t ht).2.1
    have hprogress' := (hkey u hu).2.1
    omega
  · intro i hi j hj
    obtain ⟨t, ht, rfl⟩ := List.mem_map.mp hi
    obtain ⟨-, hprogress, hsmall⟩ := hkey t ht
    have hj' : j = 52000 ∨ j = 52001 := (mem_totals j).mp hj
    omega
  · intro i hi j hj
    obtain ⟨t, ht, rfl⟩ := List.mem_map.mp hi
    obtain ⟨hstate, -, hsmall⟩ := hkey t ht
    obtain hj | hj := List.mem_append.mp hj
    · obtain ⟨u, hu, rfl⟩ := List.mem_map.mp hj
      obtain ⟨-, hprogress, -⟩ := hkey u hu
      omega
    · have hj' : j = 52000 ∨ j = 52001 := (mem_totals j).mp hj
      omega

theorem taskKeys_writable (hroom : ∀ t ∈ tasks, 0 ≤ t.id ∧ t.id < 1000) (key : ℕ)
    (hkeys : key ∈ taskKeys tasks) : isReserved key = false := by
  have hkey := storageKeys_eq hroom
  have hsmall : key < 10000000 := by
    obtain hkeys | hkeys := List.mem_append.mp hkeys
    · obtain ⟨t, ht, rfl⟩ := List.mem_map.mp hkeys
      obtain ⟨hstate, -, hroom⟩ := hkey t ht
      omega
    obtain hkeys | hkeys := List.mem_append.mp hkeys
    · obtain ⟨t, ht, rfl⟩ := List.mem_map.mp hkeys
      obtain ⟨-, hprogress, hroom⟩ := hkey t ht
      omega
    · have hkeys' : key = 52000 ∨ key = 52001 := (mem_totals key).mp hkeys
      omega
  have hnot : ¬ 10000000 ≤ key := by omega
  rw [isReserved, decide_eq_false hnot, Bool.false_and]

/-- The ids for which the layout of the storage keys has room. -/
def TaskTable.ofIds (tasks : List Task) (hids : (tasks.map fun t => t.id).Nodup)
    (hroom : ∀ t ∈ tasks, 0 ≤ t.id ∧ t.id < 1000) : TaskTable where
  tasks := tasks
  apart := taskKeys_nodup hids hroom
  writable := taskKeys_writable hroom

theorem sound_of_small_ids (hids : (tasks.map fun t => t.id).Nodup) (hroom : ∀ t ∈ tasks, 0 ≤ t.id ∧ t.id < 1000)
    (calls : List Call) : Sound tasks (run (step tasks) {} calls) :=
  (inv_calls (TaskTable.ofIds tasks hids hroom) calls).toSound

end Layout

end ForgottenServer.Tasks
