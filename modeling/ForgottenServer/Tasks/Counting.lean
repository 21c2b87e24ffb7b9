import ForgottenServer.Lib.Run
import ForgottenServer.Tasks.Tasks
import Mathlib.Data.List.Nodup

/-! # Tasks are counted and paid once

As long as no two storage keys of a task table meet, each function changes the
values of its own task, and the number of active tasks with them. -/
namespace ForgottenServer.Tasks
open ForgottenServer.Lib.Run

/-- The keys that the task system keeps its values under. -/
def taskKeys (tasks : List Task) : List ℕ :=
  tasks.map (fun t => storageKey (stateKey t.id)) ++ (tasks.map (fun t => storageKey (progressKey t.id)) ++
      [storageKey activeCountKey, storageKey taskPointsKey])

/-- A task table whose keys do not meet. -/
structure TaskTable where
  tasks : List Task
  apart : (taskKeys tasks).Nodup
  writable : ∀ key ∈ taskKeys tasks, isReserved key = false

/-! ## Storage values -/

variable {s : Storage} {key key' value : ℤ}

theorem getCounted_nonneg (s : Storage) (key : ℤ) : 0 ≤ getCounted s key := by
  unfold getCounted
  split <;> omega

theorem getStorageValue_set_of_ne (hne : storageKey key' ≠ storageKey key) :
    getStorageValue (setStorageValue s key value) key' = getStorageValue s key' := by
  rw [getStorageValue, getStorageValue, setStorageValue]
  split
  · rfl
  · rw [Function.update_of_ne hne]

theorem getCounted_set_of_ne (hne : storageKey key' ≠ storageKey key) :
    getCounted (setStorageValue s key value) key' = getCounted s key' := by
  rw [getCounted, getCounted, getStorageValue_set_of_ne hne]

theorem getStorageValue_set (h : isReserved (storageKey key) = false) :
    getStorageValue (setStorageValue s key value) key = Int.bmod value (2 ^ 32) := by
  rw [getStorageValue, setStorageValue, h]
  simp only [Bool.false_eq_true, if_false, Function.update_self]
  split
  · rfl
  · rename_i hminus
    exact (not_not.mp hminus).symm

theorem getCounted_set (h : isReserved (storageKey key) = false) (hlow : 0 ≤ value) (hhigh : value < 2 ^ 31) :
    getCounted (setStorageValue s key value) key = value := by
  have hmod : Int.bmod value (2 ^ 32) = value := Int.bmod_eq_of_le_mul_two (by omega) (by omega)
  rw [getCounted, getStorageValue_set h, hmod, if_neg (by omega)]

theorem getCounted_set_le (h : isReserved (storageKey key) = false) (hlow : 0 ≤ value) :
    getCounted (setStorageValue s key value) key ≤ value := by
  have hmod : Int.bmod value (2 ^ 32) ≤ value := by
    rw [Int.bmod]
    have hrest : value % ((2 ^ 32 : ℕ) : ℤ) ≤ value := by omega
    split <;> omega
  rw [getCounted, getStorageValue_set h]
  split <;> omega

/-! ## The keys of a table -/

namespace TaskTable
variable {T : TaskTable} {t u : Task}

theorem state_mem (ht : t ∈ T.tasks) : storageKey (stateKey t.id) ∈ taskKeys T.tasks :=
  List.mem_append_left _ (List.mem_map_of_mem ht)

theorem progress_mem (ht : t ∈ T.tasks) : storageKey (progressKey t.id) ∈ taskKeys T.tasks :=
  List.mem_append_right _ (List.mem_append_left _ (List.mem_map_of_mem ht))

theorem count_mem (T : TaskTable) : storageKey activeCountKey ∈ taskKeys T.tasks := by
  simp [taskKeys]

theorem states_nodup (T : TaskTable) : (T.tasks.map fun t => storageKey (stateKey t.id)).Nodup :=
  T.apart.of_append_left

theorem progresses_nodup (T : TaskTable) : (T.tasks.map fun t => storageKey (progressKey t.id)).Nodup :=
  T.apart.of_append_right.of_append_left

theorem tasks_nodup (T : TaskTable) : T.tasks.Nodup := T.states_nodup.of_map

theorem eq_of_id_eq (ht : t ∈ T.tasks) (hu : u ∈ T.tasks) (hid : t.id = u.id) : t = u :=
  List.inj_on_of_nodup_map T.states_nodup ht hu (by rw [hid])

theorem state_ne_state (ht : t ∈ T.tasks) (hu : u ∈ T.tasks) (hne : t ≠ u) :
    storageKey (stateKey t.id) ≠ storageKey (stateKey u.id) := fun heq =>
  hne (List.inj_on_of_nodup_map T.states_nodup ht hu heq)

theorem progress_ne_progress (ht : t ∈ T.tasks) (hu : u ∈ T.tasks) (hne : t ≠ u) :
    storageKey (progressKey t.id) ≠ storageKey (progressKey u.id) := fun heq =>
  hne (List.inj_on_of_nodup_map T.progresses_nodup ht hu heq)

theorem state_ne_progress (ht : t ∈ T.tasks) (hu : u ∈ T.tasks) :
    storageKey (stateKey t.id) ≠ storageKey (progressKey u.id) :=
  (List.nodup_append.mp T.apart).2.2 _ (List.mem_map_of_mem ht) _ (List.mem_append_left _ (List.mem_map_of_mem hu))

theorem state_ne_count (ht : t ∈ T.tasks) : storageKey (stateKey t.id) ≠ storageKey activeCountKey :=
  (List.nodup_append.mp T.apart).2.2 _ (List.mem_map_of_mem ht) _ (by simp)

theorem state_ne_points (ht : t ∈ T.tasks) : storageKey (stateKey t.id) ≠ storageKey taskPointsKey :=
  (List.nodup_append.mp T.apart).2.2 _ (List.mem_map_of_mem ht) _ (by simp)

theorem progress_ne_count (ht : t ∈ T.tasks) : storageKey (progressKey t.id) ≠ storageKey activeCountKey :=
  (List.nodup_append.mp T.apart.of_append_right).2.2 _ (List.mem_map_of_mem ht) _ (by simp)

theorem progress_ne_points (ht : t ∈ T.tasks) : storageKey (progressKey t.id) ≠ storageKey taskPointsKey :=
  (List.nodup_append.mp T.apart.of_append_right).2.2 _ (List.mem_map_of_mem ht) _ (by simp)

/-! What each setter leaves as it was, and what it writes. -/

theorem state_setTaskState_of_ne (ht : t ∈ T.tasks) (hu : u ∈ T.tasks) (hne : t ≠ u) :
    getTaskState (setTaskState s u.id value) t.id = getTaskState s t.id :=
  getCounted_set_of_ne (state_ne_state ht hu hne)

theorem state_setTaskState (ht : t ∈ T.tasks) (hlow : 0 ≤ value) (hhigh : value < 2 ^ 31) :
    getTaskState (setTaskState s t.id value) t.id = value :=
  getCounted_set (T.writable _ (state_mem ht)) hlow hhigh

theorem state_setTaskProgress (ht : t ∈ T.tasks) (hu : u ∈ T.tasks) :
    getTaskState (setTaskProgress s u.id value) t.id = getTaskState s t.id :=
  getCounted_set_of_ne (state_ne_progress ht hu)

theorem state_setActiveTaskCount (ht : t ∈ T.tasks) :
    getTaskState (setActiveTaskCount s value) t.id = getTaskState s t.id :=
  getCounted_set_of_ne (state_ne_count ht)

theorem state_addTaskPoints (ht : t ∈ T.tasks) : getTaskState (addTaskPoints s value) t.id = getTaskState s t.id :=
  getCounted_set_of_ne (state_ne_points ht)

theorem progress_setTaskState (ht : t ∈ T.tasks) (hu : u ∈ T.tasks) :
    getTaskProgress (setTaskState s u.id value) t.id = getTaskProgress s t.id :=
  getCounted_set_of_ne (state_ne_progress hu ht).symm

theorem progress_setTaskProgress_of_ne (ht : t ∈ T.tasks) (hu : u ∈ T.tasks) (hne : t ≠ u) :
    getTaskProgress (setTaskProgress s u.id value) t.id = getTaskProgress s t.id :=
  getCounted_set_of_ne (progress_ne_progress ht hu hne)

theorem progress_setTaskProgress_le (ht : t ∈ T.tasks) (hlow : 0 ≤ value) :
    getTaskProgress (setTaskProgress s t.id value) t.id ≤ value :=
  getCounted_set_le (T.writable _ (progress_mem ht)) hlow

theorem progress_setActiveTaskCount (ht : t ∈ T.tasks) :
    getTaskProgress (setActiveTaskCount s value) t.id = getTaskProgress s t.id :=
  getCounted_set_of_ne (progress_ne_count ht)

theorem progress_addTaskPoints (ht : t ∈ T.tasks) :
    getTaskProgress (addTaskPoints s value) t.id = getTaskProgress s t.id :=
  getCounted_set_of_ne (progress_ne_points ht)

theorem count_setTaskProgress (ht : t ∈ T.tasks) :
    getActiveTaskCount (setTaskProgress s t.id value) = getActiveTaskCount s :=
  getCounted_set_of_ne (progress_ne_count ht).symm

theorem count_setTaskState (ht : t ∈ T.tasks) :
    getActiveTaskCount (setTaskState s t.id value) = getActiveTaskCount s :=
  getCounted_set_of_ne (state_ne_count ht).symm

theorem count_setActiveTaskCount (T : TaskTable) (hlow : 0 ≤ value) (hhigh : value < 2 ^ 31) :
    getActiveTaskCount (setActiveTaskCount s value) = value :=
      getCounted_set (T.writable _ T.count_mem) hlow hhigh

theorem count_addTaskPoints : getActiveTaskCount (addTaskPoints s value) = getActiveTaskCount s :=
  getCounted_set_of_ne (by decide)

end TaskTable

/-! ## What a function does -/

/-- One task changes its state, and the counter becomes `count`. -/
structure Moves (T : TaskTable) (t : Task) (state count : ℤ) (s s' : Storage) : Prop where
  state : getTaskState s' t.id = state
  states : ∀ u ∈ T.tasks, u ≠ t → getTaskState s' u.id = getTaskState s u.id
  progresses : ∀ u ∈ T.tasks, u ≠ t → getTaskProgress s' u.id = getTaskProgress s u.id
  count : getActiveTaskCount s' = count

/-- A kill changes the progress of the tasks `l` only, by one. -/
structure Counts (T : TaskTable) (l : List Task) (s s' : Storage) : Prop where
  states : ∀ u ∈ T.tasks, getTaskState s' u.id = getTaskState s u.id
  progresses : ∀ u ∈ T.tasks, getTaskProgress s' u.id ≤ getTaskProgress s u.id + if u ∈ l then 1
    else 0
  count : getActiveTaskCount s' = getActiveTaskCount s

def activeCount (tasks : List Task) (s : Storage) : ℕ :=
  tasks.countP fun t => getTaskState s t.id = stateActive

section Functions
open TaskTable
variable {T : TaskTable} {t : Task} {taskId state count : ℤ} {level : ℕ} {s' : Storage}

theorem tasksById_mem {tasks : List Task} (h : tasksById tasks taskId = some t) : t ∈ tasks ∧ t.id = taskId :=
  ⟨List.mem_of_find?_eq_some h, by simpa using List.find?_some h⟩

theorem moves_setActiveTaskCount (ht : t ∈ T.tasks) (hstate : 0 ≤ state) (hstate' : state < 2 ^ 31)
    (hcount : 0 ≤ count) (hcount' : count < 2 ^ 31) :
    Moves T t state count s (setActiveTaskCount (setTaskState s t.id state) count) where
  state := by rw [state_setActiveTaskCount ht, state_setTaskState ht hstate hstate']
  states u hu hne := by rw [state_setActiveTaskCount hu, state_setTaskState_of_ne hu ht hne]
  progresses u hu _ := by rw [progress_setActiveTaskCount hu, progress_setTaskState hu ht]
  count := count_setActiveTaskCount T hcount hcount'

theorem moves_restart (ht : t ∈ T.tasks) (hstate : 0 ≤ state) (hstate' : state < 2 ^ 31)
    (hcount : 0 ≤ count) (hcount' : count < 2 ^ 31) :
    Moves T t state count s (setActiveTaskCount (setTaskProgress (setTaskState s t.id state) t.id 0) count) where
  state := by rw [state_setActiveTaskCount ht, state_setTaskProgress ht ht,
    state_setTaskState ht hstate hstate']
  states u hu hne := by
    rw [state_setActiveTaskCount hu, state_setTaskProgress hu ht, state_setTaskState_of_ne hu ht hne]
  progresses u hu hne := by
    rw [progress_setActiveTaskCount hu, progress_setTaskProgress_of_ne hu ht hne, progress_setTaskState hu ht]
  count := count_setActiveTaskCount T hcount hcount'

theorem moves_addTaskPoints {points : ℤ} (ht : t ∈ T.tasks) (h : Moves T t state count s s') :
    Moves T t state count s (addTaskPoints s' points) where
  state := (state_addTaskPoints ht).trans h.state
  states u hu hne := (state_addTaskPoints hu).trans (h.states u hu hne)
  progresses u hu hne := (progress_addTaskPoints hu).trans (h.progresses u hu hne)
  count := count_addTaskPoints.trans h.count

theorem acceptTask_cases (T : TaskTable) (level : ℕ) (s : Storage) (taskId : ℤ) :
    (acceptTask T.tasks level s taskId).1 = s ∧ (acceptTask T.tasks level s taskId).2.1 = false ∨
    ∃ t ∈ T.tasks, t.id = taskId ∧ getTaskState s t.id ≠ stateActive ∧ getTaskState s t.id ≠ stateCompleted ∧
      getActiveTaskCount s < maxActiveTasks ∧ (acceptTask T.tasks level s taskId).2.1 = true ∧
      Moves T t stateActive (getActiveTaskCount s + 1) s (acceptTask T.tasks level s taskId).1 ∧
      getTaskProgress (acceptTask T.tasks level s taskId).1 t.id ≤ 0 := by
  rw [acceptTask]
  cases hfind : tasksById T.tasks taskId with
  | none => exact .inl ⟨rfl, rfl⟩
  | some task =>
    obtain ⟨ht, rfl⟩ := tasksById_mem hfind
    dsimp only
    split
    · exact .inl ⟨rfl, rfl⟩
    rename_i hactive
    split
    · exact .inl ⟨rfl, rfl⟩
    rename_i hcompleted
    split
    · exact .inl ⟨rfl, rfl⟩
    split
    · exact .inl ⟨rfl, rfl⟩
    rename_i hroom
    have hpos : 0 ≤ getActiveTaskCount s := getCounted_nonneg s activeCountKey
    have hlt : getActiveTaskCount s < maxActiveTasks := not_le.mp hroom
    have hsmall : getActiveTaskCount s + 1 < 2 ^ 31 := by
      rw [maxActiveTasks] at hlt
      omega
    refine .inr ⟨task, ht, rfl, hactive, hcompleted, hlt, rfl, ?_, ?_⟩
    · exact moves_restart ht (by decide) (by decide) (by omega) hsmall
    · rw [progress_setActiveTaskCount ht]
      exact progress_setTaskProgress_le ht le_rfl

theorem completeTask_cases (T : TaskTable) (s : Storage) (taskId : ℤ)
    (hcount : getActiveTaskCount s ≤ maxActiveTasks) :
    (completeTask T.tasks s taskId).1 = s ∧ (completeTask T.tasks s taskId).2.2 = none ∨
    ∃ t ∈ T.tasks, t.id = taskId ∧ getTaskState s t.id = stateActive ∧ t.killCount ≤ getTaskProgress s t.id ∧
      (completeTask T.tasks s taskId).2.2 = some t ∧
      Moves T t stateCompleted (max 0 (getActiveTaskCount s - 1)) s (completeTask T.tasks s taskId).1 := by
  rw [completeTask]
  cases hfind : tasksById T.tasks taskId with
  | none => exact .inl ⟨rfl, rfl⟩
  | some task =>
    obtain ⟨ht, rfl⟩ := tasksById_mem hfind
    dsimp only
    split
    · exact .inl ⟨rfl, rfl⟩
    rename_i hactive
    split
    · exact .inl ⟨rfl, rfl⟩
    rename_i hkills
    rw [maxActiveTasks] at hcount
    rw [count_setTaskState ht]
    refine .inr ⟨task, ht, rfl, not_not.mp hactive, not_lt.mp hkills, rfl, moves_addTaskPoints ht ?_⟩
    exact moves_setActiveTaskCount ht (by decide) (by decide) (by omega) (by omega)

theorem cancelTask_cases (T : TaskTable) (s : Storage) (taskId : ℤ) (hcount : getActiveTaskCount s ≤ maxActiveTasks) :
    (cancelTask T.tasks s taskId).1 = s ∨
    ∃ t ∈ T.tasks, t.id = taskId ∧ getTaskState s t.id = stateActive ∧
      Moves T t stateNone (max 0 (getActiveTaskCount s - 1)) s (cancelTask T.tasks s taskId).1 := by
  rw [cancelTask]
  cases hfind : tasksById T.tasks taskId with
  | none => exact .inl rfl
  | some task =>
    obtain ⟨ht, rfl⟩ := tasksById_mem hfind
    dsimp only
    split
    · exact .inl rfl
    rename_i hactive
    rw [maxActiveTasks] at hcount
    rw [count_setTaskProgress ht, count_setTaskState ht]
    refine .inr ⟨task, ht, rfl, not_not.mp hactive, ?_⟩
    exact moves_restart ht (by decide) (by decide) (by omega) (by omega)

/-- By induction on the tasks of the monster: each of them is counted in its own turn. -/
theorem foldl_countKill {l : List Task} (hl : l ⊆ T.tasks) (hnodup : l.Nodup) (acc : Storage × List (Task × Bool)) :
    Counts T l acc.1 (l.foldl countKill acc).1 := by
  induction l generalizing acc with
  | nil => exact ⟨fun _ _ => rfl, fun _ _ => by simp, rfl⟩
  | cons task l ih =>
    obtain ⟨hfresh, hnodup⟩ := List.nodup_cons.mp hnodup
    have ht : task ∈ T.tasks := hl (List.mem_cons_self ..)
    have hfirst : Counts T [task] acc.1 (countKill acc task).1 := by
      rw [countKill]
      split
      · refine ⟨fun u hu => state_setTaskProgress hu ht, fun u hu => ?_, count_setTaskProgress ht⟩
        have hpos : 0 ≤ getTaskProgress acc.1 task.id := getCounted_nonneg _ _
        by_cases hne : u = task
        · rw [hne, if_pos (List.mem_singleton_self _)]
          exact progress_setTaskProgress_le ht (by omega)
        · rw [progress_setTaskProgress_of_ne hu ht hne, if_neg (by simpa using hne), add_zero]
      · refine ⟨fun _ _ => rfl, fun u hu => ?_, rfl⟩
        have hsame : getTaskProgress acc.1 u.id ≤ getTaskProgress acc.1 u.id + if u ∈ [task] then
            1 else 0 := by
          split <;> omega
        exact hsame
    have hrest := ih (List.subset_of_cons_subset hl) hnodup (countKill acc task)
    refine ⟨fun u hu => (hrest.states u hu).trans (hfirst.states u hu), fun u hu => ?_, hrest.count.trans hfirst.count⟩
    have hone := hfirst.progresses u hu
    have htwo := hrest.progresses u hu
    by_cases hne : u = task
    · rw [hne, if_neg hfresh] at htwo
      rw [hne, if_pos (List.mem_singleton_self _)] at hone
      rw [hne, if_pos (List.mem_cons_self ..), List.foldl_cons]
      omega
    · rw [if_neg (by simpa using hne)] at hone
      rw [List.foldl_cons]
      simp only [List.mem_cons, hne, false_or]
      omega

theorem onKill_counts (T : TaskTable) (s : Storage) (monsterName : String) :
    Counts T (tasksByMonster T.tasks monsterName.toLower) s (onKill T.tasks s monsterName).1 :=
  foldl_countKill (List.filter_subset_self _) (T.tasks_nodup.filter _) (s, [])

/-! ## The number of active tasks -/

theorem countP_change {α : Type*} [DecidableEq α] {l : List α} {a : α} {p q : α → Bool} (hnodup : l.Nodup) (ha : a ∈ l)
    (hother : ∀ b ∈ l, b ≠ a → q b = p b) : l.countP q + (p a).toNat = l.countP p + (q a).toNat := by
  have hperm := List.perm_cons_erase ha
  have hrest : (l.erase a).countP q = (l.erase a).countP p := by
    refine List.countP_congr fun b hb => ?_
    obtain ⟨hne, hb⟩ := hnodup.mem_erase_iff.mp hb
    rw [hother b hb hne]
  rw [hperm.countP_eq q, hperm.countP_eq p, List.countP_cons, List.countP_cons, hrest]
  cases p a <;> cases q a <;> simp

theorem Moves.activeCount (h : Moves T t state count s s') (ht : t ∈ T.tasks) :
    activeCount T.tasks s' + (decide (getTaskState s t.id = stateActive)).toNat =
      activeCount T.tasks s + (decide (state = stateActive)).toNat := by
  have hchange := @countP_change _ _ T.tasks t (fun u => getTaskState s u.id = stateActive)
    (fun u => getTaskState s' u.id = stateActive) T.tasks_nodup ht fun u hu hne => by
      rw [h.states u hu hne]
  rw [h.state] at hchange
  exact hchange

theorem Counts.activeCount {l : List Task} (h : Counts T l s s') : activeCount T.tasks s' = activeCount T.tasks s :=
  List.countP_congr fun u hu => by rw [h.states u hu]

end Functions
end ForgottenServer.Tasks
