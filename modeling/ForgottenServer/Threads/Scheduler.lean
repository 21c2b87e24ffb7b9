import ForgottenServer.Lib.Run
import Mathlib.Algebra.Ring.Nat
import Mathlib.Data.List.Count
import Mathlib.Data.List.Nodup
import Mathlib.Tactic.Common

/-! # The scheduler and its thread

Everything the scheduler shares is touched under `eventLock`, so what happens
between two lock operations is one step, of the thread or of a caller. Between
its steps the thread waits for the signal, is on its way round its loop or has a
task in its hands that is not with the dispatcher yet. The waits end by a
signal, for no reason or by a timeout, at any time. -/
namespace ForgottenServer.Threads
open ForgottenServer.Lib.Run

inductive ThreadState
  | running | closing | terminated
  deriving DecidableEq, Repr

structure SchedulerTask where
  /-- the address of the task -/
  ref : ℕ
  /-- when it is due -/
  cycle : ℕ
  eventId : ℕ := 0
  deriving DecidableEq, Repr

/-- Where the thread is. -/
inductive Location
  | loop
  /-- past the condition of the loop -/
  | entering
  | waiting
  | waitingUntil
  | handing (task : SchedulerTask)
  | finished
  deriving DecidableEq, Repr

structure Scheduler where
  threadState : ThreadState
  lastEventId : ℕ := 0
  /-- the priority queue, in no order -/
  eventList : List SchedulerTask := []
  eventIds : List ℕ := []
  location : Location := .loop
  /-- tasks made so far: the next address -/
  created : ℕ := 0
  /-- the tasks given to `Dispatcher::addTask` -/
  handed : List SchedulerTask := []
  /-- the ids for which `stopEvent` answered true -/
  stopped : List ℕ := []
  deriving DecidableEq, Repr

/-- `addEvent`: the id of the event. -/
def addEvent (s : Scheduler) (task : SchedulerTask) : ℕ × Scheduler :=
  if s.threadState ≠ .running then (0, s)
  else
    let next := if (s.lastEventId + 1) % 2 ^ 32 = 0 then 1 else (s.lastEventId + 1) % 2 ^ 32
    let s := if task.eventId = 0 then { s with lastEventId := next } else s
    let task := if task.eventId = 0 then { task with eventId := s.lastEventId } else task
    (task.eventId, { s with
      eventIds := if task.eventId ∈ s.eventIds then s.eventIds else task.eventId :: s.eventIds
      eventList := task :: s.eventList })

/-- `stopEvent`: only the id is erased, the task stays in the queue. -/
def stopEvent (s : Scheduler) (eventId : ℕ) : Bool × Scheduler :=
  if eventId = 0 then (false, s)
  else if eventId ∉ s.eventIds then (false, s)
  else (true, { s with eventIds := s.eventIds.erase eventId })

/-- No task of the queue is due before this one. -/
def isTop (s : Scheduler) (task : SchedulerTask) : Bool :=
  task ∈ s.eventList && s.eventList.all fun t => task.cycle ≤ t.cycle

/-- The thread after a timeout, when `task` is on top. -/
def takeTop (s : Scheduler) (task : SchedulerTask) : Scheduler :=
  let s := { s with eventList := s.eventList.erase task }
  if task.eventId ∉ s.eventIds then { s with location := .loop }
  else { s with eventIds := s.eventIds.erase task.eventId, location := .handing task }

inductive Event
  /-- a task is made and added -/
  | add (cycle : ℕ)
  | stop (eventId : ℕ)
  /-- the thread looks at its state -/
  | check
  /-- it takes the lock and waits -/
  | enter
  /-- its wait ends without a timeout -/
  | wake
  /-- its wait ends with a timeout, with the task on top of the queue -/
  | timeout (task : SchedulerTask)
  /-- with a timeout, and the queue is empty by now -/
  | timeoutEmpty
  /-- `g_dispatcher.addTask` -/
  | hand
  | setState (st : ThreadState)
  /-- the rest of `shutdown` -/
  | clear
  deriving DecidableEq, Repr

/-- One step; a step of the thread that is not where it has to be does not happen. -/
def step (s : Scheduler) : Event → Scheduler
  | .add cycle =>
    let s' := { s with created := s.created + 1 }
    (addEvent s' { ref := s.created, cycle }).2
  | .stop eventId =>
    let (stopped, s') := stopEvent s eventId
    if stopped then { s' with stopped := eventId :: s'.stopped } else s'
  | .check =>
    if s.location ≠ .loop then s
    else { s with location := if s.threadState = .terminated then .finished else .entering }
  | .enter =>
    if s.location ≠ .entering then s
    else { s with location := if s.eventList = [] then .waiting else .waitingUntil }
  | .wake =>
    if s.location = .waiting ∨ s.location = .waitingUntil then { s with location := .loop } else s
  | .timeout task => if s.location = .waitingUntil ∧ isTop s task then takeTop s task else s
  | .timeoutEmpty =>
    if s.location = .waitingUntil ∧ s.eventList = [] then { s with location := .loop } else s
  | .hand =>
    match s.location with
    | .handing task => { s with handed := task :: s.handed, location := .loop }
    | _ => s
  | .setState st => { s with threadState := st }
  | .clear => { s with eventList := [], eventIds := [] }

/-! ## The invariant -/

/-- The task the thread holds. -/
def inHand (s : Scheduler) : List SchedulerTask :=
  match s.location with
  | .handing task => [task]
  | _ => []

/-- The tasks that left the queue for the dispatcher. -/
def gone (s : Scheduler) : List SchedulerTask := inHand s ++ s.handed

structure Inv (s : Scheduler) : Prop where
  refs : ((s.eventList ++ gone s).map (·.ref)).Nodup
  ids : ((s.eventList ++ gone s).map (·.eventId)).Nodup
  known : ∀ t ∈ s.eventList ++ gone s, t.ref < s.created ∧ 0 < t.eventId ∧ t.eventId ≤ s.lastEventId
  active : ∀ id ∈ s.eventIds, id ∈ s.eventList.map (·.eventId)
  eventIds : s.eventIds.Nodup
  stopped : s.stopped.Nodup
  stoppedKnown : ∀ id ∈ s.stopped, id ≤ s.lastEventId ∧ id ∉ s.eventIds ∧ id ∉ (gone s).map (·.eventId)

variable {s : Scheduler}

theorem initial_inv (st : ThreadState) : Inv { threadState := st } := by
  constructor <;> simp [gone, inHand]

/-- The queue and the set of ids lose something, nothing leaves for the dispatcher. -/
theorem Inv.shrink {s' : Scheduler} (h : Inv s) (hlist : s'.eventList.Sublist s.eventList)
    (hids : s'.eventIds.Sublist s.eventIds) (hgone : gone s' = gone s)
    (hactive : ∀ id ∈ s'.eventIds, id ∈ s'.eventList.map (·.eventId)) (hcreated : s'.created = s.created)
    (hlast : s'.lastEventId = s.lastEventId) (hstopped : s'.stopped = s.stopped) : Inv s' where
  refs := by
    rw [hgone]
    exact h.refs.sublist ((hlist.append_right _).map _)
  ids := by
    rw [hgone]
    exact h.ids.sublist ((hlist.append_right _).map _)
  known t ht := by
    rw [hgone] at ht
    rw [hcreated, hlast]
    exact h.known t ((hlist.append_right _).subset ht)
  active := hactive
  eventIds := h.eventIds.sublist hids
  stopped := hstopped ▸ h.stopped
  stoppedKnown id hid := by
    rw [hstopped] at hid
    obtain ⟨hle, hno, hgone'⟩ := h.stoppedKnown id hid
    rw [hlast, hgone]
    exact ⟨hle, fun hmem => hno (hids.subset hmem), hgone'⟩

theorem gone_of_not_handing (hs : ∀ task, s.location ≠ .handing task) : gone s = s.handed := by
  unfold gone inHand
  split
  · rename_i task heq
    exact absurd heq (hs task)
  · rfl

theorem Inv.moved {l : Location} (h : Inv s) (hl : ∀ task, l ≠ .handing task)
    (hs : ∀ task, s.location ≠ .handing task) : Inv { s with location := l } := by
  have hgone : gone { s with location := l } = gone s := by
    rw [gone_of_not_handing hl, gone_of_not_handing hs]
  exact h.shrink (.refl _) (.refl _) hgone h.active rfl rfl rfl

/-! ## Steps -/

theorem not_gone_of_queued {id : ℕ} (h : Inv s) (hid : id ∈ s.eventList.map (·.eventId)) :
    id ∉ (gone s).map (·.eventId) := by
  have hids := h.ids
  rw [List.map_append] at hids
  exact fun hgone => List.disjoint_of_nodup_append hids hid hgone

theorem addEvent_inv {cycle : ℕ} (h : Inv s) (hlast : s.lastEventId + 1 < 2 ^ 32) : Inv (step s (.add cycle)) := by
  have hnew : Inv { s with created := s.created + 1 } :=
    { h with known := fun t ht => ⟨(h.known t ht).1.trans (Nat.lt_succ_self _), (h.known t ht).2⟩ }
  unfold step addEvent
  dsimp only
  split
  · exact hnew
  · have hmod : (s.lastEventId + 1) % 2 ^ 32 = s.lastEventId + 1 := Nat.mod_eq_of_lt hlast
    rw [hmod, if_neg (Nat.succ_ne_zero _), if_pos rfl, if_pos rfl]
    dsimp only
    have hfresh : s.lastEventId + 1 ∉ (s.eventList ++ gone s).map (·.eventId) := by
      intro hmem
      obtain ⟨t, ht, heq⟩ := List.mem_map.mp hmem
      have := (h.known t ht).2.2
      omega
    have hno : s.lastEventId + 1 ∉ s.eventIds := fun hmem => by
      refine hfresh ?_
      rw [List.map_append]
      exact List.mem_append_left _ (h.active _ hmem)
    rw [if_neg hno]
    refine ⟨?_, ?_, fun t ht => ?_, fun id hid => ?_, List.nodup_cons.mpr ⟨hno, h.eventIds⟩, h.stopped,
      fun id hid => ?_⟩
    · refine List.nodup_cons.mpr ⟨fun hmem => ?_, h.refs⟩
      obtain ⟨t, ht, heq⟩ := List.mem_map.mp hmem
      have hless := (h.known t ht).1
      dsimp only at heq
      omega
    · exact List.nodup_cons.mpr ⟨hfresh, h.ids⟩
    · rcases List.mem_cons.mp ht with rfl | ht
      · exact ⟨Nat.lt_succ_self _, Nat.succ_pos _, le_rfl⟩
      · obtain ⟨href, hpos, hle⟩ := h.known t ht
        exact ⟨href.trans (Nat.lt_succ_self _), hpos, hle.trans (Nat.le_succ _)⟩
    · rcases List.mem_cons.mp hid with rfl | hid
      · exact List.mem_cons_self
      · exact List.mem_cons_of_mem _ (h.active id hid)
    · obtain ⟨hle, hid', hgone⟩ := h.stoppedKnown id hid
      refine ⟨hle.trans (Nat.le_succ _), fun hmem => ?_, hgone⟩
      rcases List.mem_cons.mp hmem with heq | hmem
      · omega
      · exact hid' hmem

theorem stopEvent_inv {eventId : ℕ} (h : Inv s) : Inv (step s (.stop eventId)) := by
  unfold step stopEvent
  dsimp only
  split
  · exact h
  split
  · exact h
  rename_i hmem
  have hid : eventId ∈ s.eventIds := not_not.mp hmem
  have hqueued := h.active eventId hid
  have hnot := not_gone_of_queued h hqueued
  have hsub : ∀ id ∈ s.eventIds.erase eventId, id ≠ eventId ∧ id ∈ s.eventIds := fun id hid' =>
    h.eventIds.mem_erase_iff.mp hid'
  refine ⟨h.refs, h.ids, h.known, fun id hid' => h.active id (hsub id hid').2, h.eventIds.erase _,
    List.nodup_cons.mpr ⟨fun hst => (h.stoppedKnown _ hst).2.1 hid, h.stopped⟩, fun id hid' => ?_⟩
  rcases List.mem_cons.mp hid' with rfl | hid'
  · obtain ⟨t, ht, rfl⟩ := List.mem_map.mp hqueued
    exact ⟨(h.known t (List.mem_append_left _ ht)).2.2, fun hmem' => (hsub _ hmem').1 rfl, hnot⟩
  · obtain ⟨hle, hno, hgone⟩ := h.stoppedKnown id hid'
    exact ⟨hle, fun hmem' => hno (hsub id hmem').2, hgone⟩

theorem mem_erase_of_id {task : SchedulerTask} {id : ℕ} (hne : id ≠ task.eventId)
    (hid : id ∈ s.eventList.map (·.eventId)) : id ∈ (s.eventList.erase task).map (·.eventId) := by
  obtain ⟨t, ht, rfl⟩ := List.mem_map.mp hid
  have htask : t ≠ task := fun heq => hne (heq ▸ rfl)
  exact List.mem_map_of_mem ((List.mem_erase_of_ne htask).mpr ht)

theorem takeTop_inv {task : SchedulerTask} (h : Inv s) (hloc : s.location = .waitingUntil)
    (htask : task ∈ s.eventList) : Inv (takeTop s task) := by
  have hgone : gone s = s.handed := gone_of_not_handing (by rw [hloc]; exact nofun)
  unfold takeTop
  dsimp only
  split
  · rename_i hno
    refine h.shrink List.erase_sublist (.refl _) hgone.symm (fun id hid => ?_) rfl rfl rfl
    exact mem_erase_of_id (fun heq => hno (heq ▸ hid)) (h.active id hid)
  · rename_i hmem
    have hid : task.eventId ∈ s.eventIds := not_not.mp hmem
    have hsub : ∀ id ∈ s.eventIds.erase task.eventId, id ≠ task.eventId ∧ id ∈ s.eventIds :=
      fun id hid' =>
      h.eventIds.mem_erase_iff.mp hid'
    have hperm : (s.eventList.erase task ++ (task :: s.handed)).Perm (s.eventList ++ gone s) := by
      rw [hgone]
      exact List.perm_middle.trans ((List.perm_cons_erase htask).symm.append_right _)
    refine ⟨(hperm.map _).nodup_iff.mpr h.refs, (hperm.map _).nodup_iff.mpr h.ids,
      fun t ht => h.known t (hperm.mem_iff.mp ht), fun id hid' => ?_, h.eventIds.erase _, h.stopped,
      fun id hid' => ?_⟩
    · exact mem_erase_of_id (hsub id hid').1 (h.active id (hsub id hid').2)
    · obtain ⟨hle, hno, hgone'⟩ := h.stoppedKnown id hid'
      refine ⟨hle, fun hmem' => hno (hsub id hmem').2, fun hmem' => ?_⟩
      rcases List.mem_cons.mp hmem' with heq | hmem'
      · exact hno (heq ▸ hid)
      · exact hgone' (hgone ▸ hmem')

/-- Every step keeps the invariant, as long as the ids have not run out. -/
theorem step_inv {e : Event} (h : Inv s) (hlast : ∀ cycle, e = .add cycle → s.lastEventId + 1 < 2 ^ 32) :
    Inv (step s e) := by
  cases e with
  | add cycle => exact addEvent_inv h (hlast cycle rfl)
  | stop eventId => exact stopEvent_inv h
  | check =>
    unfold step
    dsimp only
    split
    · exact h
    · rename_i hloc
      refine h.moved (fun task => ?_) (by rw [not_not.mp hloc]; exact nofun)
      split <;> exact nofun
  | enter =>
    unfold step
    dsimp only
    split
    · exact h
    · rename_i hloc
      refine h.moved (fun task => ?_) (by rw [not_not.mp hloc]; exact nofun)
      split <;> exact nofun
  | wake =>
    unfold step
    dsimp only
    split
    · rename_i hloc
      refine h.moved nofun fun task => ?_
      rcases hloc with hloc | hloc <;> rw [hloc] <;> exact nofun
    · exact h
  | timeout task =>
    unfold step
    dsimp only
    split
    · rename_i hloc
      simp only [isTop, Bool.and_eq_true, decide_eq_true_eq] at hloc
      exact takeTop_inv h hloc.1 hloc.2.1
    · exact h
  | timeoutEmpty =>
    unfold step
    dsimp only
    split
    · rename_i hloc
      exact h.moved nofun (by rw [hloc.1]; exact nofun)
    · exact h
  | hand =>
    unfold step
    dsimp only
    split
    · rename_i task hloc
      have hgone : gone s = task :: s.handed := by simp [gone, inHand, hloc]
      exact h.shrink (.refl _) (.refl _) hgone.symm h.active rfl rfl rfl
    · exact h
  | setState st => exact h.shrink (.refl _) (.refl _) rfl h.active rfl rfl rfl
  | clear => exact h.shrink (List.nil_sublist _) (List.nil_sublist _) rfl nofun rfl rfl rfl

/-! ## Runs -/

def isAdd : Event → Bool
  | .add _ => true
  | _ => false

/-- Only `addEvent` uses up an id. -/
theorem lastEventId_step {e : Event} (hlast : ∀ cycle, e = .add cycle → s.lastEventId + 1 < 2 ^ 32) :
    (step s e).lastEventId ≤ s.lastEventId + if isAdd e then 1 else 0 := by
  cases e with
  | add cycle =>
    unfold step addEvent
    dsimp only [isAdd]
    split
    · exact Nat.le_succ _
    · rw [if_pos rfl]
      dsimp only
      rw [Nat.mod_eq_of_lt (hlast cycle rfl), if_neg (Nat.succ_ne_zero _)]
      exact le_rfl
  | stop eventId =>
    unfold step stopEvent
    dsimp only
    repeat' split
    all_goals exact Nat.le_add_right _ _
  | timeout task =>
    unfold step takeTop
    dsimp only
    repeat' split
    all_goals exact Nat.le_add_right _ _
  | _ =>
    unfold step
    dsimp only
    repeat' split
    all_goals exact Nat.le_add_right _ _

theorem run_inv (es : List Event) (h : Inv s) (hadds : s.lastEventId + es.countP isAdd < 2 ^ 32) :
    Inv (run step s es) := by
  induction es generalizing s with
  | nil => exact h
  | cons e es ih =>
    rw [List.countP_cons] at hadds
    have hroom : ∀ cycle, e = .add cycle → s.lastEventId + 1 < 2 ^ 32 := by
      rintro cycle rfl
      simp only [isAdd, if_true] at hadds
      omega
    have hless := lastEventId_step hroom
    rw [run_cons]
    exact ih (step_inv h hroom) (by omega)

/-- In every run that adds fewer than `2 ^ 32` events: no task is handed to the dispatcher twice,
none that was stopped is handed over, no event is stopped twice, and every id that is active has
one task in the queue. -/
theorem scheduler_safe (st : ThreadState) (es : List Event) (hadds : es.countP isAdd < 2 ^ 32) :
    ((run step { threadState := st } es).handed.map (·.ref)).Nodup ∧
      (∀ t ∈ (run step { threadState := st } es).handed,
        t.eventId ∉ (run step { threadState := st } es).stopped) ∧
      (run step { threadState := st } es).stopped.Nodup ∧
      ∀ id ∈ (run step { threadState := st } es).eventIds,
        ((run step { threadState := st } es).eventList.map (·.eventId)).count id = 1 := by
  have h : Inv (run step { threadState := st } es) :=
    run_inv es (initial_inv st) (by simpa using hadds)
  generalize run step { threadState := st } es = s at h
  have hhanded : s.handed.Sublist (s.eventList ++ gone s) :=
    (List.sublist_append_right _ _).trans (List.sublist_append_right _ _)
  refine ⟨h.refs.sublist (hhanded.map _), fun t ht hst => ?_, h.stopped, fun id hid => ?_⟩
  · have hgone : t ∈ gone s := List.mem_append_right _ ht
    exact (h.stoppedKnown _ hst).2.2 (List.mem_map_of_mem hgone)
  · refine List.count_eq_one_of_mem ?_ (h.active id hid)
    exact h.ids.sublist ((List.sublist_append_left _ _).map _)

/-- A task is handed over, another is stopped in time and dropped at its timeout. -/
theorem scheduler_safe_two_tasks :
    (run step { threadState := .running } [.add 5, .add 7, .stop 2, .check, .enter, .timeout ⟨0, 5, 1⟩, .hand,
      .check, .enter, .timeout ⟨1, 7, 2⟩]).handed = [⟨0, 5, 1⟩] ∧
    ((run step { threadState := .running } [.add 5, .add 7, .stop 2, .check, .enter,
      .timeout ⟨0, 5, 1⟩, .hand, .check, .enter, .timeout ⟨1, 7, 2⟩]).handed.map (·.ref)).Nodup :=
  ⟨by decide, (scheduler_safe .running _ (by decide)).1⟩

end ForgottenServer.Threads
