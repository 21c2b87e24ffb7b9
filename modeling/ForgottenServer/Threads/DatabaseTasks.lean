import ForgottenServer.Lib.Run
import ForgottenServer.Threads.Scheduler
import Mathlib.Data.List.Range
import Mathlib.Tactic.Common

/-! # The database tasks

`DatabaseTasks`: a queue of statements, the thread that works it off, and the
`flush` of the game's thread, which works it off as well. The queue and the state
are touched under `taskLock` only, so what happens between two lock operations is
one step. What the connection answers belongs to the step. -/
namespace ForgottenServer.Threads.DatabaseTasks
open ForgottenServer.Lib.Run

variable {R : Type*}

structure DatabaseTask where
  /-- the how-manieth task that was taken in -/
  ref : ℕ
  query : String
  /-- whether there is one -/
  callback : Bool
  store : Bool
  deriving DecidableEq, Repr

/-- What `storeQuery` returns, and what `executeQuery` does. -/
structure Answer (R : Type*) where
  result : Option R
  success : Bool

/-- The arguments of the callback in `runTask`. -/
def outcome (task : DatabaseTask) (answer : Answer R) : Option R × Bool :=
  if task.store then (answer.result, true) else (none, answer.success)

/-- How far a thread is with `runTask`. -/
inductive Job (R : Type*)
  | taken (task : DatabaseTask)
  | answered (task : DatabaseTask) (out : Option R × Bool)

/-- Where the thread of `threadMain` is. -/
inductive Worker (R : Type*)
  | loop
  /-- past the condition of the loop -/
  | entering
  | waiting
  /-- the wait is over, the lock not yet taken -/
  | woken
  | running (job : Job R)
  | finished

/-- Where the game's thread is: `last` in the `flush` of `shutdown`. -/
inductive Flusher (R : Type*)
  | idle
  | flushing (last : Bool)
  | running (last : Bool) (job : Job R)
  /-- before the `notify_one` of `shutdown` -/
  | notifying
  | done

structure Tasks (R : Type*) where
  threadState : ThreadState := .running
  /-- oldest first, as all lists here -/
  tasks : List DatabaseTask := []
  worker : Worker R := .loop
  flusher : Flusher R := .idle
  /-- callers of `addTask` between the lock and `notify_one` -/
  pending : ℕ := 0
  /-- the tasks `addTask` put into the queue -/
  accepted : List DatabaseTask := []
  /-- the tasks that left the queue -/
  popped : List DatabaseTask := []
  /-- the tasks the connection was given -/
  executed : List DatabaseTask := []
  /-- the callbacks the dispatcher was given -/
  called : List (DatabaseTask × Option R × Bool) := []

inductive Thread
  | worker | flusher
  deriving DecidableEq, Repr

inductive Event (R : Type*)
  /-- the locked part of `addTask` -/
  | add (query : String) (callback store : Bool)
  /-- the rest of it -/
  | notify
  /-- the thread looks at its state -/
  | check
  /-- it takes the lock and finds a task or waits -/
  | enter
  /-- its wait ends for no reason -/
  | wake
  /-- it has the lock again -/
  | resume
  | flush
  | shutdown
  /-- one turn of the loop in `flush` -/
  | turn
  /-- the end of `shutdown` -/
  | signal
  /-- a thread has its task executed -/
  | execute (thread : Thread) (answer : Answer R)
  /-- it passes on the callback, if there is one -/
  | deliver (thread : Thread)
  /-- `ThreadHolder::stop` -/
  | stop

/-- The thread, after a look into the queue. -/
def take (s : Tasks R) (empty : Worker R) : Tasks R :=
  match s.tasks with
  | [] => { s with worker := empty }
  | task :: tasks =>
    { s with tasks, popped := s.popped ++ [task], worker := .running (.taken task) }

/-- `taskSignal.notify_one`. -/
def notifyOne (s : Tasks R) : Tasks R :=
  match s.worker with
  | .waiting => { s with worker := .woken }
  | _ => s

def addTask (s : Tasks R) (query : String) (callback store : Bool) : Tasks R :=
  if s.threadState ≠ .running then s
  else
    let task := { ref := s.accepted.length, query, callback, store }
    { s with
      tasks := s.tasks ++ [task]
      accepted := s.accepted ++ [task]
      pending := if s.tasks = [] then s.pending + 1 else s.pending }

/-- One turn of the loop in `flush`. -/
def flushTurn (s : Tasks R) (last : Bool) : Tasks R :=
  match s.tasks with
  | [] => { s with flusher := if last then .notifying else .idle }
  | task :: tasks =>
    { s with tasks, popped := s.popped ++ [task], flusher := .running last (.taken task) }

def executeTask (s : Tasks R) (task : DatabaseTask) : Tasks R :=
  { s with executed := s.executed ++ [task] }

/-- The end of `runTask`. -/
def callBack (s : Tasks R) (task : DatabaseTask) (out : Option R × Bool) : Tasks R :=
  { s with called := if task.callback then s.called ++ [(task, out)] else s.called }

/-- One step; a step of a thread that is not where it has to be does not happen. -/
def step (s : Tasks R) : Event R → Tasks R
  | .add query callback store => addTask s query callback store
  | .notify => if s.pending = 0 then s else notifyOne { s with pending := s.pending - 1 }
  | .check =>
    match s.worker with
    | .loop => { s with worker := if s.threadState = .terminated then .finished else .entering }
    | _ => s
  | .enter => match s.worker with | .entering => take s .waiting | _ => s
  | .wake => match s.worker with | .waiting => { s with worker := .woken } | _ => s
  | .resume => match s.worker with | .woken => take s .loop | _ => s
  | .flush => match s.flusher with | .idle => { s with flusher := .flushing false } | _ => s
  | .shutdown =>
    match s.flusher with
    | .idle => { s with threadState := .terminated, flusher := .flushing true }
    | _ => s
  | .turn => match s.flusher with | .flushing last => flushTurn s last | _ => s
  | .signal => match s.flusher with | .notifying => notifyOne { s with flusher := .done } | _ => s
  | .execute .worker answer =>
    match s.worker with
    | .running (.taken task) =>
      executeTask { s with worker := .running (.answered task (outcome task answer)) } task
    | _ => s
  | .execute .flusher answer =>
    match s.flusher with
    | .running last (.taken task) =>
      executeTask { s with flusher := .running last (.answered task (outcome task answer)) } task
    | _ => s
  | .deliver .worker =>
    match s.worker with
    | .running (.answered task out) => callBack { s with worker := .loop } task out
    | _ => s
  | .deliver .flusher =>
    match s.flusher with
    | .running last (.answered task out) => callBack { s with flusher := .flushing last } task out
    | _ => s
  | .stop => { s with threadState := .closing }

/-! ## The invariant -/

def Worker.job : Worker R → Option (Job R)
  | .running job => some job
  | _ => none

def Flusher.job : Flusher R → Option (Job R)
  | .running _ job => some job
  | _ => none

@[simp] theorem Worker.job_running (job : Job R) : (Worker.running job).job = some job := rfl

@[simp] theorem Flusher.job_running (last : Bool) (job : Job R) : (Flusher.running last job).job = some job := rfl

/-- Whether the thread is in `shutdown` or past it. -/
def Flusher.last : Flusher R → Bool
  | .flushing last => last
  | .running last _ => last
  | .notifying => true
  | .done => true
  | .idle => false

def unexecuted : Option (Job R) → List DatabaseTask
  | some (.taken task) => [task]
  | _ => []

def uncalled : Option (Job R) → List DatabaseTask
  | some (.answered task _) => [task].filter (·.callback)
  | _ => []

@[simp] theorem unexecuted_none : unexecuted (none : Option (Job R)) = [] := rfl

@[simp] theorem unexecuted_taken (task : DatabaseTask) : unexecuted (some (.taken task : Job R)) = [task] := rfl

@[simp] theorem unexecuted_answered (task : DatabaseTask) (out : Option R × Bool) :
    unexecuted (some (.answered task out)) = [] := rfl

@[simp] theorem uncalled_none : uncalled (none : Option (Job R)) = [] := rfl

@[simp] theorem uncalled_taken (task : DatabaseTask) : uncalled (some (.taken task : Job R)) = [] := rfl

@[simp] theorem uncalled_answered (task : DatabaseTask) (out : Option R × Bool) :
    uncalled (some (.answered task out)) = [task].filter (·.callback) := rfl

/-- The tasks out of the queue that the connection has not been given yet. -/
def inHand (s : Tasks R) : List DatabaseTask :=
  unexecuted s.worker.job ++ unexecuted s.flusher.job

/-- The executed tasks whose callback is still to be passed on. -/
def awaited (s : Tasks R) : List DatabaseTask :=
  uncalled s.worker.job ++ uncalled s.flusher.job

structure Inv (s : Tasks R) : Prop where
  refs : s.accepted.map (·.ref) = List.range s.accepted.length
  fifo : s.accepted = s.popped ++ s.tasks
  once : s.popped.Perm (s.executed ++ inHand s)
  called : (s.executed.filter (·.callback)).Perm (s.called.map Prod.fst ++ awaited s)
  /-- the thread does not sleep while there is a task, unless it is about to be woken -/
  awake : s.worker = .waiting → s.tasks ≠ [] → 0 < s.pending
  closing : s.flusher.last = true → s.threadState ≠ .running
  drained : s.flusher = .notifying ∨ s.flusher = .done → s.tasks = []

variable {s : Tasks R}

theorem start_inv : Inv ({} : Tasks R) where
  refs := rfl
  fifo := rfl
  once := .refl _
  called := .refl _
  awake := nofun
  closing := nofun
  drained := by rintro (h | h) <;> cases h

theorem Inv.move {w : Worker R} (h : Inv s) (hjob : w.job = s.worker.job)
    (hw : w = .waiting → s.tasks ≠ [] → 0 < s.pending) : Inv { s with worker := w } where
  refs := h.refs
  fifo := h.fifo
  once := by
    have : inHand { s with worker := w } = inHand s := by simp only [inHand, hjob]
    rw [this]
    exact h.once
  called := by
    have : awaited { s with worker := w } = awaited s := by simp only [awaited, hjob]
    rw [this]
    exact h.called
  awake := hw
  closing := h.closing
  drained := h.drained

theorem Inv.moveFlusher {f : Flusher R} {st : ThreadState} (h : Inv s) (hjob : f.job = s.flusher.job)
    (hlast : f.last = true → st ≠ .running) (hdrained : f = .notifying ∨ f = .done → s.tasks = []) :
    Inv { s with flusher := f, threadState := st } where
  refs := h.refs
  fifo := h.fifo
  once := by
    have : inHand { s with flusher := f, threadState := st } = inHand s := by
      simp only [inHand, hjob]
    rw [this]
    exact h.once
  called := by
    have : awaited { s with flusher := f, threadState := st } = awaited s := by
      simp only [awaited, hjob]
    rw [this]
    exact h.called
  awake := h.awake
  closing := hlast
  drained := hdrained

/-! ## Steps -/

theorem addTask_inv {query : String} {callback store : Bool} (h : Inv s) : Inv (addTask s query callback store) := by
  unfold addTask
  split
  · exact h
  · rename_i hrunning
    refine ⟨?_, ?_, h.once, h.called, fun hw _ => ?_, h.closing, fun hf => ?_⟩
    · simp only [List.map_append, List.map_cons, List.map_nil, h.refs, List.length_append,
        List.length_cons, List.length_nil, List.range_succ]
    · simp only [h.fifo, List.append_assoc]
    · dsimp only
      split
      · exact Nat.succ_pos _
      · rename_i hne
        exact h.awake hw hne
    · -- after the last flush nothing is taken in
      have hlast : s.flusher.last = true := by
        rcases hf with hf | hf <;> dsimp only at hf <;> rw [hf] <;> rfl
      exact absurd (not_not.mp hrunning) (h.closing hlast)

theorem notifyOne_inv (h : Inv { s with pending := s.pending + 1 }) : Inv (notifyOne s) := by
  unfold notifyOne
  split
  · rename_i hw
    have honce := h.once
    have hcalled := h.called
    simp only [inHand, hw] at honce
    simp only [awaited, hw] at hcalled
    exact ⟨h.refs, h.fifo, honce, hcalled, nofun, h.closing, h.drained⟩
  · rename_i hw
    exact ⟨h.refs, h.fifo, h.once, h.called, fun hwait => absurd hwait hw, h.closing, h.drained⟩

theorem once_popped {popped executed hands hands' : List DatabaseTask} {task : DatabaseTask}
    (h : popped.Perm (executed ++ hands)) (hhands : hands'.Perm (task :: hands)) :
    (popped ++ [task]).Perm (executed ++ hands') := by
  have hcons : (popped ++ [task]).Perm (task :: popped) := List.perm_append_singleton _ _
  have hmiddle : (executed ++ (task :: hands)).Perm (task :: (executed ++ hands)) := List.perm_middle
  exact hcons.trans ((h.cons task).trans (hmiddle.symm.trans (hhands.symm.append_left _)))

theorem take_inv {empty : Worker R} (h : Inv s) (hjob : s.worker.job = none)
    (hempty : empty.job = none) : Inv (take s empty) := by
  unfold take
  split
  · rename_i htasks
    exact h.move (by rw [hempty, hjob]) fun _ hne => absurd htasks hne
  · rename_i task tasks htasks
    refine ⟨h.refs, ?_, ?_, ?_, nofun, h.closing, fun hf => ?_⟩
    · simp only [h.fifo, htasks, List.append_assoc, List.cons_append, List.nil_append]
    · refine once_popped h.once ?_
      simp only [inHand, hjob]
      exact .refl _
    · have hcalled := h.called
      simp only [awaited, hjob] at hcalled
      exact hcalled
    · have := h.drained hf
      rw [htasks] at this
      cases this

theorem flushTurn_inv {last : Bool} (h : Inv s) (hf : s.flusher = .flushing last) : Inv (flushTurn s last) := by
  have hjob : s.flusher.job = none := by rw [hf]; rfl
  have hclosing : last = true → s.threadState ≠ .running := fun hl =>
    h.closing (by rw [hf, hl]; rfl)
  unfold flushTurn
  split
  · rename_i htasks
    refine h.moveFlusher ?_ (fun hl => ?_) fun _ => htasks
    · rw [hjob]
      split <;> rfl
    · cases last with
      | true => exact hclosing rfl
      | false => cases hl
  · rename_i task tasks htasks
    refine ⟨h.refs, ?_, ?_, ?_, fun hw _ => ?_, hclosing, by rintro (hf | hf) <;> cases hf⟩
    · simp only [h.fifo, htasks, List.append_assoc, List.cons_append, List.nil_append]
    · refine once_popped h.once ?_
      simp only [inHand, hjob, Flusher.job_running, unexecuted_none, unexecuted_taken, List.append_nil]
      exact List.perm_append_singleton _ _
    · have hcalled := h.called
      simp only [awaited, hjob] at hcalled
      exact hcalled
    · exact h.awake hw (by rw [htasks]; exact List.cons_ne_nil _ _)

theorem called_executed {executed called rest : List DatabaseTask} {task : DatabaseTask}
    (h : (executed.filter (·.callback)).Perm (called ++ rest)) :
    ((executed ++ [task]).filter (·.callback)).Perm (called ++ ([task].filter (·.callback) ++ rest)) := by
  rw [List.filter_append]
  refine (h.append_right _).trans ?_
  rw [List.append_assoc]
  exact List.perm_append_comm.append_left _

theorem executeWorker_inv {task : DatabaseTask} {out : Option R × Bool} (h : Inv s)
    (hw : s.worker = .running (.taken task)) :
    Inv (executeTask { s with worker := .running (.answered task out) } task) where
  refs := h.refs
  fifo := h.fifo
  once := by
    have honce := h.once
    simp only [inHand, hw, Worker.job_running, unexecuted_taken] at honce
    simpa only [executeTask, inHand, Worker.job_running, unexecuted_answered, List.append_assoc,
      List.nil_append] using honce
  called := by
    have hcalled := h.called
    simp only [awaited, hw, Worker.job_running, uncalled_taken, List.nil_append] at hcalled
    exact called_executed hcalled
  awake := nofun
  closing := h.closing
  drained := h.drained

theorem executeFlusher_inv {last : Bool} {task : DatabaseTask} {out : Option R × Bool} (h : Inv s)
    (hf : s.flusher = .running last (.taken task)) :
    Inv (executeTask { s with flusher := .running last (.answered task out) } task) where
  refs := h.refs
  fifo := h.fifo
  once := by
    have honce := h.once
    simp only [inHand, hf, Flusher.job_running, unexecuted_taken] at honce
    refine honce.trans ?_
    simp only [executeTask, inHand, Flusher.job_running, unexecuted_answered, List.append_assoc, List.append_nil]
    exact List.perm_append_comm.append_left _
  called := by
    have hcalled := h.called
    simp only [awaited, hf, Flusher.job_running, uncalled_taken, List.append_nil] at hcalled
    refine (called_executed hcalled).trans ?_
    exact List.perm_append_comm.append_left _
  awake := h.awake
  closing hl := h.closing (by rw [hf]; exact hl)
  drained := by rintro (hf | hf) <;> cases hf

theorem map_called (task : DatabaseTask) (out : Option R × Bool) :
    (callBack s task out).called.map Prod.fst = s.called.map Prod.fst ++ [task].filter (·.callback) := by
  unfold callBack
  by_cases hcallback : task.callback = true
  · simp [hcallback]
  · simp [hcallback]

theorem deliverWorker_inv {task : DatabaseTask} {out : Option R × Bool} (h : Inv s)
    (hw : s.worker = .running (.answered task out)) : Inv (callBack { s with worker := .loop } task out) where
  refs := h.refs
  fifo := h.fifo
  once := by
    have honce := h.once
    simp only [inHand, hw, Worker.job_running, unexecuted_answered] at honce
    exact honce
  called := by
    have hcalled := h.called
    simp only [awaited, hw, Worker.job_running, uncalled_answered, ← List.append_assoc] at hcalled
    rw [map_called]
    exact hcalled
  awake := nofun
  closing := h.closing
  drained := h.drained

theorem deliverFlusher_inv {last : Bool} {task : DatabaseTask} {out : Option R × Bool} (h : Inv s)
    (hf : s.flusher = .running last (.answered task out)) :
    Inv (callBack { s with flusher := .flushing last } task out) where
  refs := h.refs
  fifo := h.fifo
  once := by
    have honce := h.once
    simp only [inHand, hf, Flusher.job_running, unexecuted_answered] at honce
    exact honce
  called := by
    have hcalled := h.called
    simp only [awaited, hf, Flusher.job_running, uncalled_answered] at hcalled
    rw [map_called, List.append_assoc]
    refine hcalled.trans (List.Perm.append_left _ ?_)
    exact List.perm_append_comm.trans (.of_eq (by rw [← List.append_nil (uncalled s.worker.job)]; rfl))
  awake := h.awake
  closing hl := h.closing (by rw [hf]; exact hl)
  drained := by rintro (hf | hf) <;> cases hf

theorem step_inv {e : Event R} (h : Inv s) : Inv (step s e) := by
  cases e with
  | add query callback store => exact addTask_inv h
  | notify =>
    unfold step
    dsimp only
    split
    · exact h
    · rename_i hpending
      have hback : s.pending - 1 + 1 = s.pending := Nat.sub_add_cancel (Nat.pos_of_ne_zero hpending)
      refine notifyOne_inv ?_
      rw [hback]
      exact h
  | check =>
    unfold step
    dsimp only
    split
    · rename_i hw
      refine h.move ?_ fun hwait => ?_
      · rw [hw]
        split <;> rfl
      · split at hwait <;> cases hwait
    · exact h
  | enter =>
    unfold step
    dsimp only
    split
    · rename_i hw
      exact take_inv h (by rw [hw]; rfl) rfl
    · exact h
  | wake =>
    unfold step
    dsimp only
    split
    · rename_i hw
      exact h.move (by rw [hw]; rfl) nofun
    · exact h
  | resume =>
    unfold step
    dsimp only
    split
    · rename_i hw
      exact take_inv h (by rw [hw]; rfl) rfl
    · exact h
  | flush =>
    unfold step
    dsimp only
    split
    · rename_i hf
      exact h.moveFlusher (by rw [hf]; rfl) nofun (by rintro (hf | hf) <;> cases hf)
    · exact h
  | shutdown =>
    unfold step
    dsimp only
    split
    · rename_i hf
      exact h.moveFlusher (by rw [hf]; rfl) (fun _ => nofun) (by rintro (hf | hf) <;> cases hf)
    · exact h
  | turn =>
    unfold step
    dsimp only
    split
    · rename_i last hf
      exact flushTurn_inv h hf
    · exact h
  | signal =>
    unfold step
    dsimp only
    split
    · rename_i hf
      have hdone : Inv { s with flusher := .done } :=
        h.moveFlusher (by rw [hf]; rfl) (fun _ => h.closing (by rw [hf]; rfl))
          fun _ => h.drained (.inl hf)
      exact notifyOne_inv { hdone with awake := fun _ _ => Nat.succ_pos _ }
    · exact h
  | execute thread answer =>
    cases thread with
    | worker =>
      unfold step
      dsimp only
      split
      · rename_i task hw
        exact executeWorker_inv h hw
      · exact h
    | flusher =>
      unfold step
      dsimp only
      split
      · rename_i last task hf
        exact executeFlusher_inv h hf
      · exact h
  | deliver thread =>
    cases thread with
    | worker =>
      unfold step
      dsimp only
      split
      · rename_i task out hw
        exact deliverWorker_inv h hw
      · exact h
    | flusher =>
      unfold step
      dsimp only
      split
      · rename_i last task out hf
        exact deliverFlusher_inv h hf
      · exact h
  | stop => exact { h with closing := fun _ => nofun }

theorem run_inv (es : List (Event R)) : Inv (run step {} es) := by
  have hall : Along step (fun _ _ => True) ({} : Tasks R) es :=
    Along.of_forall fun _ _ => trivial
  exact inv_run (fun _ _ h _ => step_inv h) start_inv hall

/-! ## What a run does with the tasks -/

theorem accepted_nodup (h : Inv s) : s.accepted.Nodup := by
  refine List.Nodup.of_map (·.ref) ?_
  rw [h.refs]
  exact List.nodup_range

/-- In every run, whatever the two threads and the callers of `addTask` do in between: the queue
is first in, first out; every task that was taken in waits in it, is in the hands of a thread or
has been executed, one of the three and once; its callback is passed on once at most, and only
after that; the thread does not sleep on a task once the callers are through; and when `shutdown`
is over, no task is left but what the thread still has in its hands. -/
theorem tasks_run_once (es : List (Event R)) :
    let s : Tasks R := run step {} es
    s.accepted = s.popped ++ s.tasks ∧ s.accepted.Perm (s.executed ++ inHand s ++ s.tasks) ∧
      (s.executed ++ inHand s ++ s.tasks).Nodup ∧
      (s.called.map Prod.fst).Nodup ∧
      (∀ c ∈ s.called, c.1.callback = true ∧ c.1 ∈ s.executed) ∧
      (s.worker = .waiting → s.pending = 0 → s.tasks = []) ∧
      (s.flusher = .done → s.accepted.Perm (s.executed ++ unexecuted s.worker.job)) := by
  intro s
  have h : Inv s := run_inv es
  have hperm : s.accepted.Perm (s.executed ++ inHand s ++ s.tasks) := by
    rw [h.fifo]
    exact h.once.append_right _
  have hnodup := hperm.nodup_iff.mp (accepted_nodup h)
  have hexecuted : s.executed.Nodup :=
    hnodup.sublist ((List.sublist_append_left _ _).trans (List.sublist_append_left _ _))
  have hcalled := h.called.nodup_iff.mp (hexecuted.filter _)
  refine ⟨h.fifo, hperm, hnodup, hcalled.sublist (List.sublist_append_left _ _), fun c hc => ?_,
    fun hw hpending => ?_, fun hf => ?_⟩
  · have hmem : c.1 ∈ s.executed.filter (·.callback) :=
      h.called.mem_iff.mpr (List.mem_append_left _ (List.mem_map_of_mem hc))
    obtain ⟨hexec, hcallback⟩ := List.mem_filter.mp hmem
    exact ⟨hcallback, hexec⟩
  · by_contra hne
    have := h.awake hw hne
    omega
  · have hempty := h.drained (.inr hf)
    simpa only [inHand, hf, Flusher.job, unexecuted_none, hempty, List.append_nil] using hperm

/-! ## Shutting down -/

/-- Past the `setState` of `shutdown`, with the thread not on its way into a wait. -/
structure Awake (s : Tasks R) : Prop where
  terminated : s.threadState = .terminated
  last : s.flusher.last = true
  entering : s.worker ≠ .entering
  waiting : s.worker = .waiting → s.flusher ≠ .done

theorem Awake.notifyOne (h : Awake s) : Awake (notifyOne s) := by
  unfold DatabaseTasks.notifyOne
  split
  · exact ⟨h.terminated, h.last, nofun, nofun⟩
  · exact h

theorem Awake.take (h : Awake s) : Awake (take s .loop) := by
  unfold DatabaseTasks.take
  split <;> exact ⟨h.terminated, h.last, nofun, nofun⟩

theorem Awake.flushTurn {last : Bool} (h : Awake s) (hf : s.flusher = .flushing last) : Awake (flushTurn s last) := by
  have hlast : last = true := by
    have := h.last
    rw [hf] at this
    exact this
  subst hlast
  unfold DatabaseTasks.flushTurn
  split <;> exact ⟨h.terminated, rfl, h.entering, fun _ => nofun⟩

/-- As long as `stop` does not take the state back, the thread does not get into a wait again. -/
theorem Awake.step {e : Event R} (h : Awake s) (hstop : e ≠ .stop) : Awake (step s e) := by
  cases e with
  | add query callback store =>
    unfold DatabaseTasks.step addTask
    dsimp only
    split
    · exact h
    · rename_i hrunning
      rw [h.terminated] at hrunning
      exact absurd nofun hrunning
  | notify =>
    unfold DatabaseTasks.step
    dsimp only
    split
    · exact h
    · have hless : Awake { s with pending := s.pending - 1 } := { h with }
      exact hless.notifyOne
  | check =>
    unfold DatabaseTasks.step
    dsimp only
    split
    · rw [if_pos h.terminated]
      exact ⟨h.terminated, h.last, nofun, nofun⟩
    · exact h
  | enter =>
    unfold DatabaseTasks.step
    dsimp only
    split
    · rename_i hw
      exact absurd hw h.entering
    · exact h
  | wake =>
    unfold DatabaseTasks.step
    dsimp only
    split
    · exact ⟨h.terminated, h.last, nofun, nofun⟩
    · exact h
  | resume =>
    unfold DatabaseTasks.step
    dsimp only
    split
    · exact h.take
    · exact h
  | flush =>
    unfold DatabaseTasks.step
    dsimp only
    split
    · rename_i hf
      have := h.last
      rw [hf] at this
      cases this
    · exact h
  | shutdown =>
    unfold DatabaseTasks.step
    dsimp only
    split
    · exact ⟨rfl, rfl, h.entering, fun _ => nofun⟩
    · exact h
  | turn =>
    unfold DatabaseTasks.step
    dsimp only
    split
    · rename_i last hf
      exact h.flushTurn hf
    · exact h
  | signal =>
    unfold DatabaseTasks.step
    dsimp only
    split
    · unfold DatabaseTasks.notifyOne
      dsimp only
      split
      · exact ⟨h.terminated, rfl, nofun, nofun⟩
      · rename_i hno
        exact ⟨h.terminated, rfl, h.entering, fun hw => absurd hw hno⟩
    · exact h
  | execute thread answer =>
    cases thread with
    | worker =>
      unfold DatabaseTasks.step
      dsimp only
      split
      · exact ⟨h.terminated, h.last, nofun, nofun⟩
      · exact h
    | flusher =>
      unfold DatabaseTasks.step
      dsimp only
      split
      · rename_i last task hf
        have hlast := h.last
        rw [hf] at hlast
        exact ⟨h.terminated, hlast, h.entering, fun _ => nofun⟩
      · exact h
  | deliver thread =>
    cases thread with
    | worker =>
      unfold DatabaseTasks.step
      dsimp only
      split
      · exact ⟨h.terminated, h.last, nofun, nofun⟩
      · exact h
    | flusher =>
      unfold DatabaseTasks.step
      dsimp only
      split
      · rename_i last task out hf
        have hlast := h.last
        rw [hf] at hlast
        exact ⟨h.terminated, hlast, h.entering, fun _ => nofun⟩
      · exact h
  | stop => exact absurd rfl hstop

/-- The thread past the condition of its loop, the game's thread at work in `shutdown`. -/
structure Late (s : Tasks R) : Prop where
  terminated : s.threadState = .terminated
  worker : s.worker = .entering
  flusher : s.flusher = .flushing true

/-- The game's thread can work off the queue meanwhile. -/
theorem Late.drain (h : Late s) : ∃ post : List (Event R), .stop ∉ post ∧
    Late (run step s post) ∧ (run step s post).tasks = [] := by
  generalize htasks : s.tasks = tasks
  induction tasks generalizing s with
  | nil => exact ⟨[], List.not_mem_nil, h, htasks⟩
  | cons task tasks ih =>
    let answer : Answer R := { result := none, success := true }
    let post : List (Event R) := [.turn, .execute .flusher answer, .deliver .flusher]
    have hrun : run step s post = callBack (executeTask { s with
          tasks, popped := s.popped ++ [task], flusher := .flushing true } task)
          task (outcome task answer) := by
      simp only [post, run_cons, run_nil, step, h.flusher, flushTurn, htasks]
      rfl
    have hlate : Late (run step s post) := by
      rw [hrun]
      exact ⟨h.terminated, h.worker, rfl⟩
    have hrest : (run step s post).tasks = tasks := by
      rw [hrun]
      rfl
    obtain ⟨rest, hstop, hlate', hempty⟩ := ih hlate hrest
    refine ⟨post ++ rest, ?_, ?_⟩
    · simp [post, hstop]
    · rw [run_append]
      exact ⟨hlate', hempty⟩

theorem Late.signalled (h : Late s) (hempty : s.tasks = []) : ∃ post : List (Event R), .stop ∉ post ∧
    Late (run step s post) ∧ (run step s post).tasks = [] ∧ (run step s post).pending = 0 := by
  generalize hpending : s.pending = pending
  induction pending generalizing s with
  | zero => exact ⟨[], List.not_mem_nil, h, hempty, hpending⟩
  | succ pending ih =>
    have hstep : step s .notify = { s with pending } := by
      simp only [step, hpending, notifyOne, h.worker, Nat.succ_ne_zero, if_false, Nat.add_sub_cancel]
    have hlate : Late (step s .notify) := by
      rw [hstep]
      exact ⟨h.terminated, h.worker, h.flusher⟩
    obtain ⟨rest, hstop, hrest⟩ := ih hlate (by rw [hstep]; exact hempty) (by rw [hstep])
    exact ⟨.notify :: rest, by simp [hstop], hrest⟩

/-- The thread sleeps, `shutdown` is over and nobody is left to wake it. -/
structure Asleep (s : Tasks R) : Prop where
  worker : s.worker = .waiting
  flusher : s.flusher = .done
  pending : s.pending = 0
  state : s.threadState ≠ .running

theorem Asleep.step {e : Event R} (h : Asleep s) (hwake : e ≠ .wake) : Asleep (step s e) := by
  cases e with
  | add query callback store => rwa [DatabaseTasks.step, addTask, if_pos h.state]
  | notify => rwa [DatabaseTasks.step, if_pos h.pending]
  | wake => exact absurd rfl hwake
  | execute thread answer =>
    cases thread with
    | worker => simpa only [DatabaseTasks.step, h.worker] using h
    | flusher => simpa only [DatabaseTasks.step, h.flusher] using h
  | deliver thread =>
    cases thread with
    | worker => simpa only [DatabaseTasks.step, h.worker] using h
    | flusher => simpa only [DatabaseTasks.step, h.flusher] using h
  | stop => exact { h with state := nofun }
  | _ => simpa only [DatabaseTasks.step, h.worker, h.flusher] using h

theorem asleep_run {es : List (Event R)} (h : Asleep s) (hwake : .wake ∉ es) : Asleep (run step s es) := by
  have hall : Along step (fun _ e => e ≠ .wake) s es := Along.of_forall fun e he heq => hwake (heq ▸ he)
  exact inv_run (fun _ _ h he => h.step he) h hall

theorem awake_run {es : List (Event R)} (h : Awake s) (hstop : .stop ∉ es) : Awake (run step s es) := by
  have hall : Along step (fun _ e => e ≠ .stop) s es := Along.of_forall fun e he heq => hstop (heq ▸ he)
  exact inv_run (fun _ _ h he => h.step he) h hall

theorem Late.sleeps (h : Late s) (hempty : s.tasks = []) (hpending : s.pending = 0) :
    Asleep (run step s [.turn, .signal, .enter]) := by
  have hrun : run step s [.turn, .signal, .enter] = { s with flusher := .done, worker := .waiting } := by
    simp only [run_cons, run_nil, step, h.flusher, flushTurn, hempty, notifyOne, h.worker, take, if_true]
  rw [hrun]
  exact ⟨rfl, rfl, hpending, by rw [h.terminated]; nofun⟩

/-- Whether `shutdown` can leave the thread asleep for good is decided when it sets the state:
if and only if the thread has then passed the condition of its loop and not yet taken the lock.
The lock does not cover the two, so the signal at the end of `shutdown` can come before the wait. -/
theorem shutdown_hangs_iff (pre : List (Event R)) (hidle : (run step ({} : Tasks R) pre).flusher = .idle) :
    (∃ post : List (Event R), .stop ∉ post ∧ ∀ more : List (Event R), .wake ∉ more →
          let s : Tasks R := run step {} (pre ++ .shutdown :: (post ++ more))
          s.flusher = .done ∧ s.worker = .waiting) ↔
      (run step ({} : Tasks R) pre).worker = .entering := by
  simp only [run_append, run_cons]
  generalize run step ({} : Tasks R) pre = s at hidle
  have hshut : step s .shutdown = { s with threadState := .terminated, flusher := .flushing true } := by
    simp only [step, hidle]
  constructor
  · rintro ⟨post, hstop, hmore⟩
    by_contra hne
    have hawake : Awake (step s .shutdown) := by
      rw [hshut]
      exact ⟨rfl, rfl, hne, fun _ => nofun⟩
    have hend := awake_run hawake hstop
    obtain ⟨hdone, hwaiting⟩ := hmore [] List.not_mem_nil
    exact hend.waiting hwaiting hdone
  · intro hw
    have hlate : Late (step s .shutdown) := by
      rw [hshut]
      exact ⟨rfl, hw, rfl⟩
    obtain ⟨drain, hdrain, hlate', hempty⟩ := hlate.drain
    obtain ⟨calls, hcalls, hlate'', hempty', hpending⟩ := hlate'.signalled hempty
    refine ⟨drain ++ calls ++ [.turn, .signal, .enter], by simp [hdrain, hcalls], fun more hwake => ?_⟩
    rw [run_append, run_append]
    have hasleep := asleep_run (hlate''.sleeps hempty' hpending) hwake
    exact ⟨hasleep.flusher, hasleep.worker⟩

/-- The thread has just looked at its state when `shutdown` sets it. -/
theorem shutdown_hangs_after_check :
    ∃ post : List (Event Unit), .stop ∉ post ∧ ∀ more : List (Event Unit), .wake ∉ more →
      let s : Tasks Unit := run step {} ([.check] ++ .shutdown :: (post ++ more))
      s.flusher = .done ∧ s.worker = .waiting :=
  (shutdown_hangs_iff [.check] rfl).mpr rfl

end ForgottenServer.Threads.DatabaseTasks
