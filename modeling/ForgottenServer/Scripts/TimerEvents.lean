import ForgottenServer.Lib.Registry
import ForgottenServer.Lib.Run

/-! # The timer events of the scripts

`addEvent` and `stopEvent` of the scripts, and `LuaEnvironment::executeTimerEvent`. The
function and its arguments are kept in the registry of Lua, which other parts of the
program use as well; `nil` is not kept but has a reference of its own. Of an item or a
creature its number is kept, when the configuration says so. -/
namespace ForgottenServer.Scripts.TimerEvents
open ForgottenServer.Lib ForgottenServer.Lib.Run ForgottenServer.Lib.Registry

variable {V : Type*}

inductive LuaDataType
  | unknown | item | container | teleport | player | monster | npc | tile
  deriving DecidableEq, Repr

/-- What `addEvent` finds of the values it is given. -/
structure Lua (V : Type*) where
  /-- of the configuration -/
  convertUnsafeScripts : Bool
  /-- the type in the metatable; without one it is unknown -/
  dataType : V → LuaDataType
  /-- the answers of `Item.getUniqueId` and `Creature.getId` -/
  getUniqueId : V → Option V
  getId : V → Option V

def Lua.convert (lua : Lua V) (value : V) : Option V :=
  match lua.dataType value with
  | .unknown | .tile => some value
  | .item | .container | .teleport => lua.getUniqueId value
  | .player | .monster | .npc => lua.getId value

/-- The arguments after the two loops over the unsafe ones; the warning is left out. -/
def Lua.convertAll (lua : Lua V) (arguments : List (Option V)) : List (Option V) :=
  if lua.convertUnsafeScripts then arguments.map (·.bind lua.convert) else arguments

structure LuaTimerEventDesc where
  scriptId : ℤ
  function : ℕ
  /-- the last argument first; none is `LUA_REFNIL` -/
  parameters : List (Option ℕ)
  /-- of the scheduler -/
  eventId : ℕ
  deriving DecidableEq, Repr

def LuaTimerEventDesc.refs (desc : LuaTimerEventDesc) : List ℕ :=
  desc.function :: desc.parameters.reduceOption

/-- A call of a function of the scripts, and when it is due at the earliest. -/
structure Call (V : Type*) where
  scriptId : ℤ
  function : Option V
  arguments : List (Option V)
  due : ℕ
  deriving DecidableEq

/-- A call of `executeTimerEvent` with `timerEventId`. -/
structure SchedulerTask where
  id : ℕ
  timerEventId : ℕ
  due : ℕ
  deriving DecidableEq, Repr

structure LuaEnvironment (V : Type*) where
  registry : List (ℕ × V) := []
  /-- the references other parts of the program have taken -/
  others : List ℕ := []
  timerEvents : List (ℕ × LuaTimerEventDesc) := []
  lastEventTimerId : ℕ := 1
  tasks : List SchedulerTask := []
  /-- of the scheduler -/
  lastEventId : ℕ := 0
  /-- the calls `addEvent` was asked for, oldest first -/
  added : List (Call V) := []
  /-- the calls that were made, with the number of the event and the time -/
  called : List (ℕ × Call V × ℕ) := []
  /-- the events that were executed, or stopped -/
  ended : List ℕ := []
  deriving DecidableEq

inductive Event (V : Type*)
  /-- with a function, at least; the delay is the number of the script as one of 32 bits -/
  | addEvent (lua : Lua V) (scriptId : ℤ) (function : V) (delay : UInt32) (arguments : List (Option V)) (now : ℕ)
  /-- `caught` says whether the scheduler has not let go of the task yet -/
  | stopEvent (eventId : ℕ) (caught : Bool)
  /-- a task is executed; `reserved` is the answer of `reserveScriptEnv` -/
  | execute (id now : ℕ) (reserved : Bool)
  /-- another part of the program takes a reference, or gives one back -/
  | take (value : V)
  | release (ref : ℕ)
  /-- another part of the program adds an event to the scheduler -/
  | schedule

/-- The call that `addEvent` is asked for. -/
def Event.asked : Event V → Option (Call V)
  | .addEvent lua scriptId function delay arguments now => some {
      scriptId
      function := some function
      arguments := lua.convertAll arguments
      due := now + (max 100 delay).toNat }
  | _ => none

variable (a : Allocator)

/-- `luaAddEvent` from `eventDesc` on. -/
def LuaEnvironment.keepEvent (s : LuaEnvironment V) (scriptId : ℤ) (function : V)
    (arguments : List (Option V)) (due : ℕ) : LuaEnvironment V :=
  -- the arguments are on the top of the stack, the last one uppermost
  let (parameters, registry) := refAll a arguments.reverse s.registry
  let ref := a.next (refs registry)
  let eventId := (s.lastEventId + 1) % 2 ^ 32
  let desc := { scriptId, function := ref, parameters, eventId }
  { s with
    registry := (ref, function) :: registry
    timerEvents :=
      if s.timerEvents.any (·.1 = s.lastEventTimerId) then s.timerEvents
      else s.timerEvents ++ [(s.lastEventTimerId, desc)]
    lastEventTimerId := (s.lastEventTimerId + 1) % 2 ^ 32
    tasks := s.tasks ++ [{ id := eventId, timerEventId := s.lastEventTimerId, due }]
    lastEventId := eventId
    added := s.added ++ [{ scriptId, function := some function, arguments, due }] }

def LuaEnvironment.luaAddEvent (s : LuaEnvironment V) (lua : Lua V) (scriptId : ℤ) (function : V)
    (delay : UInt32) (arguments : List (Option V)) (now : ℕ) : LuaEnvironment V :=
  s.keepEvent a scriptId function (lua.convertAll arguments) (now + (max 100 delay).toNat)

/-- `luaL_unref` of the function and of the arguments. -/
def LuaEnvironment.free (s : LuaEnvironment V) (desc : LuaTimerEventDesc) : LuaEnvironment V :=
  { s with registry := unrefAll desc.refs s.registry }

/-- The description is moved out of the map. -/
def LuaEnvironment.erase (s : LuaEnvironment V) (id : ℕ) : LuaEnvironment V :=
  { s with timerEvents := Table.delete Prod.fst id s.timerEvents, ended := s.ended ++ [id] }

def LuaEnvironment.find (s : LuaEnvironment V) (id : ℕ) : Option LuaTimerEventDesc :=
  (Table.lookup Prod.fst id s.timerEvents).map Prod.snd

/-- `luaStopEvent`. -/
def LuaEnvironment.luaStopEvent (s : LuaEnvironment V) (id : ℕ) (caught : Bool) : LuaEnvironment V :=
  match s.find id with
  | none => s
  | some desc =>
    let s := s.erase id
    { s with tasks := if caught then s.tasks.filter (·.id ≠ desc.eventId) else s.tasks }.free desc

def LuaEnvironment.push (s : LuaEnvironment V) (desc : LuaTimerEventDesc) (due : ℕ) : Call V where
  scriptId := desc.scriptId
  function := get s.registry (some desc.function)
  arguments := desc.parameters.reverse.map (get s.registry)
  due := due

/-- `executeTimerEvent`. -/
def LuaEnvironment.executeTimerEvent (s : LuaEnvironment V) (id due now : ℕ) (reserved : Bool) : LuaEnvironment V :=
  match s.find id with
  | none => s
  | some desc =>
    let call := s.push desc due
    let s := s.erase id
    { s with called := if reserved then s.called ++ [(id, call, now)] else s.called }.free desc

def step (s : LuaEnvironment V) : Event V → LuaEnvironment V
  | .addEvent lua scriptId function delay arguments now =>
    s.luaAddEvent a lua scriptId function delay arguments now
  | .stopEvent eventId caught => s.luaStopEvent eventId caught
  | .execute id now reserved =>
    match s.tasks.find? (fun task => task.id = id ∧ task.due ≤ now) with
    | none => s
    | some task =>
      { s with tasks := s.tasks.filter (·.id ≠ id) }.executeTimerEvent task.timerEventId task.due now reserved
  | .take value =>
    let ref := a.next (refs s.registry)
    { s with registry := (ref, value) :: s.registry, others := ref :: s.others }
  | .release ref =>
    if ref ∈ s.others then { s with registry := unrefAll [ref] s.registry, others := s.others.erase ref } else s
  | .schedule => { s with lastEventId := (s.lastEventId + 1) % 2 ^ 32 }

/-! ## What holds of every run -/

/-- The references of the events that wait. -/
def LuaEnvironment.owned (s : LuaEnvironment V) : List ℕ := s.timerEvents.flatMap fun p => p.2.refs

/-- The event waits for the call it was asked for, which the scheduler will make. -/
def Waits (s : LuaEnvironment V) (p : ℕ × LuaTimerEventDesc) : Prop :=
  ∃ call, s.added[p.1 - 1]? = some call ∧ s.push p.2 call.due = call ∧
    ∃ task ∈ s.tasks, task.id = p.2.eventId ∧ task.timerEventId = p.1

structure Kept (s : LuaEnvironment V) : Prop where
  nodup : (refs s.registry).Nodup
  /-- every reference in use is that of one owner -/
  owners : (refs s.registry).Perm (s.others ++ s.owned)
  next : s.lastEventTimerId = s.added.length + 1
  /-- every event waits, or has been ended once -/
  numbers : (s.timerEvents.map Prod.fst ++ s.ended).Perm (List.range' 1 s.added.length)
  waits : ∀ p ∈ s.timerEvents, Waits s p
  calledOnce : (s.called.map Prod.fst).Nodup
  called : ∀ c ∈ s.called, c.1 ∈ s.ended ∧ s.added[c.1 - 1]? = some c.2.1 ∧ c.2.1.due ≤ c.2.2
  taskIds : (s.tasks.map (·.id)).Nodup
  taskTimers : (s.tasks.map (·.timerEventId)).Nodup
  tasks : ∀ task ∈ s.tasks, task.id ≤ s.lastEventId ∧ 0 < task.timerEventId ∧
    ∃ call, s.added[task.timerEventId - 1]? = some call ∧ call.due = task.due
  descIds : (s.timerEvents.map (·.2.eventId)).Nodup

theorem Kept.keys {s : LuaEnvironment V} (h : Kept s) : (s.timerEvents.map Prod.fst).Nodup :=
  (List.nodup_append.mp (h.numbers.nodup_iff.mpr List.nodup_range')).1

theorem find_mem {s : LuaEnvironment V} {id : ℕ} {desc : LuaTimerEventDesc} (h : s.find id = some desc) :
    (id, desc) ∈ s.timerEvents := by
  obtain ⟨p, hp, rfl⟩ := Option.map_eq_some_iff.mp h
  obtain ⟨hmem, rfl⟩ := Table.lookup_some hp
  exact hmem

theorem push_congr {s t : LuaEnvironment V} {desc : LuaTimerEventDesc}
    (h : ∀ k ∈ desc.refs, get t.registry (some k) = get s.registry (some k)) (due : ℕ) :
    t.push desc due = s.push desc due := by
  have harguments : desc.parameters.reverse.map (get t.registry) = desc.parameters.reverse.map (get s.registry) := by
    refine List.map_congr_left fun k hk => ?_
    cases k with
    | none => rfl
    | some k =>
      refine h k (List.mem_cons_of_mem _ ?_)
      exact List.reduceOption_mem_iff.mpr (List.mem_reverse.mp hk)
  rw [LuaEnvironment.push, LuaEnvironment.push, h _ (List.mem_cons_self ..), harguments]

theorem perm_erase {s : LuaEnvironment V} (h : Kept s) {id : ℕ} {desc : LuaTimerEventDesc}
    (hfound : (id, desc) ∈ s.timerEvents) : s.timerEvents.Perm ((id, desc) :: (s.erase id).timerEvents) :=
  Table.perm_cons_delete h.keys hfound

theorem Kept.end {s : LuaEnvironment V} (h : Kept s) {id : ℕ} {desc : LuaTimerEventDesc}
    (hfound : (id, desc) ∈ s.timerEvents) {tasks : List SchedulerTask} (hsub : tasks.Sublist s.tasks)
    (hspared : ∀ task ∈ s.tasks, task.id ≠ desc.eventId → task ∈ tasks)
    {called : List (ℕ × Call V × ℕ)}
    (hcalled : called = s.called ∨ ∃ call now, called = s.called ++ [(id, call, now)] ∧
      s.added[id - 1]? = some call ∧ call.due ≤ now) :
    Kept ({ s.erase id with tasks, called }.free desc) := by
  have hperm := perm_erase h hfound
  have howned : s.owned.Perm (desc.refs ++ (s.erase id).owned) := hperm.flatMap_right _
  have hsplit : (refs s.registry).Perm (desc.refs ++ (s.others ++ (s.erase id).owned)) := by
    refine h.owners.trans ((List.Perm.append_left _ howned).trans ?_)
    rw [← List.append_assoc, ← List.append_assoc]
    exact List.Perm.append_right _ List.perm_append_comm
  have hkeys := hperm.map Prod.fst
  have hended : id ∉ s.ended := by
    have hnodup := h.numbers.nodup_iff.mpr List.nodup_range'
    exact fun hin => List.disjoint_of_nodup_append hnodup (List.mem_map_of_mem hfound) hin
  have hsame : ∀ p ∈ (s.erase id).timerEvents, ∀ k ∈ p.2.refs, k ∉ desc.refs := by
    intro p hp k hk hdesc
    have hnodup := hsplit.nodup_iff.mp h.nodup
    exact List.disjoint_of_nodup_append hnodup hdesc (List.mem_append_right _ (List.mem_flatMap.mpr ⟨p, hp, hk⟩))
  constructor
  case nodup =>
    change (refs (unrefAll desc.refs s.registry)).Nodup
    rw [refs_unrefAll]
    exact h.nodup.filter _
  case owners => exact unrefAll_perm h.nodup hsplit
  case next => exact h.next
  case numbers =>
    refine List.Perm.trans ?_ h.numbers
    change ((s.erase id).timerEvents.map Prod.fst ++ (s.ended ++ [id])).Perm _
    refine List.Perm.trans ?_ (List.Perm.append_right _ hkeys.symm)
    rw [← List.append_assoc]
    exact List.perm_append_comm
  case waits =>
    intro p hp
    obtain ⟨call, hadded, hpush, task, htask, hid, htimer⟩ := h.waits p (hperm.mem_iff.mpr (List.mem_cons_of_mem _ hp))
    refine ⟨call, hadded, ?_, task, hspared task htask ?_, hid, htimer⟩
    · rw [← hpush]
      exact push_congr (fun k hk => get_unrefAll (hsame p hp k hk)) _
    · have hids := (hperm.map (·.2.eventId)).nodup_iff.mp h.descIds
      rw [List.map_cons, List.nodup_cons] at hids
      rw [hid]
      exact fun heq => hids.1 (List.mem_map.mpr ⟨p, hp, heq⟩)
  case calledOnce =>
    rcases hcalled with rfl | ⟨call, now, rfl, -⟩
    · exact h.calledOnce
    · change ((s.called ++ [(id, call, now)]).map Prod.fst).Nodup
      rw [List.map_append, List.nodup_append]
      refine ⟨h.calledOnce, List.nodup_singleton _, ?_⟩
      rintro _ hold _ hnew rfl
      obtain ⟨c, hc, rfl⟩ := List.mem_map.mp hold
      have hid : c.1 = id := List.mem_singleton.mp hnew
      exact hended (hid ▸ (h.called c hc).1)
  case called =>
    have hlonger : ∀ c ∈ s.called, c.1 ∈ s.ended ++ [id] ∧ s.added[c.1 - 1]? = some c.2.1 ∧ c.2.1.due ≤ c.2.2 :=
      fun c hc => ⟨List.mem_append_left _ (h.called c hc).1, (h.called c hc).2⟩
    rcases hcalled with rfl | ⟨call, now, rfl, hadded, hdue⟩
    · exact hlonger
    · intro c hc
      rcases List.mem_append.mp hc with hc | hc
      · exact hlonger c hc
      · rw [List.mem_singleton.mp hc]
        exact ⟨List.mem_append_right _ (List.mem_singleton.mpr rfl), hadded, hdue⟩
  case taskIds => exact h.taskIds.sublist (hsub.map _)
  case taskTimers => exact h.taskTimers.sublist (hsub.map _)
  case tasks => exact fun task htask => h.tasks task (hsub.subset htask)
  case descIds =>
    have hids := (hperm.map (·.2.eventId)).nodup_iff.mp h.descIds
    rw [List.map_cons, List.nodup_cons] at hids
    exact hids.2

theorem Kept.luaStopEvent {s : LuaEnvironment V} (h : Kept s) (id : ℕ) (caught : Bool) :
    Kept (s.luaStopEvent id caught) := by
  rw [LuaEnvironment.luaStopEvent]
  cases hfind : s.find id with
  | none => exact h
  | some desc =>
    have hfound := find_mem hfind
    cases caught with
    | true =>
      exact h.end hfound List.filter_sublist
        (fun task htask hne => List.mem_filter.mpr ⟨htask, decide_eq_true hne⟩) (.inl rfl)
    | false => exact h.end hfound (List.Sublist.refl _) (fun task htask _ => htask) (.inl rfl)

theorem Kept.execute {s : LuaEnvironment V} (h : Kept s) (id now : ℕ) (reserved : Bool) :
    Kept (step a s (.execute id now reserved)) := by
  rw [step]
  cases hfind : s.tasks.find? (fun task => task.id = id ∧ task.due ≤ now) with
  | none => exact h
  | some task =>
    have htask := List.mem_of_find?_eq_some hfind
    obtain ⟨rfl, hdue⟩ : task.id = id ∧ task.due ≤ now := by simpa using List.find?_some hfind
    have hkept : ∀ other ∈ s.tasks, other.id ≠ task.id → other ∈ s.tasks.filter (·.id ≠ task.id) :=
      fun other hother hne => List.mem_filter.mpr ⟨hother, decide_eq_true hne⟩
    simp only
    rw [LuaEnvironment.executeTimerEvent]
    cases hevent : LuaEnvironment.find { s with tasks := s.tasks.filter (·.id ≠ task.id) } task.timerEventId with
    | none =>
      refine { h with waits := ?_, taskIds := ?_, taskTimers := ?_, tasks := ?_ }
      · intro p hp
        obtain ⟨call, hadded, hpush, own, hown, hid, htimer⟩ := h.waits p hp
        refine ⟨call, hadded, hpush, own, hkept own hown fun heq => ?_, hid, htimer⟩
        have hsame := List.inj_on_of_nodup_map h.taskIds hown htask heq
        have hnone := Option.map_eq_none_iff.mp hevent
        refine List.find?_eq_none.mp hnone p hp (decide_eq_true ?_)
        rw [← htimer, hsame]
      · exact h.taskIds.sublist (List.filter_sublist.map _)
      · exact h.taskTimers.sublist (List.filter_sublist.map _)
      · exact fun other hother => h.tasks other (List.mem_of_mem_filter hother)
    | some desc =>
      have hfound : (task.timerEventId, desc) ∈ s.timerEvents := find_mem hevent
      obtain ⟨call, hadded, hpush, own, hown, hid, htimer⟩ := h.waits _ hfound
      obtain rfl := List.inj_on_of_nodup_map h.taskTimers hown htask htimer
      obtain ⟨-, -, call', hadded', hcall⟩ := h.tasks own hown
      obtain rfl : call = call' := Option.some.inj (hadded.symm.trans hadded')
      have hpushed : s.push desc own.due = call := hcall ▸ hpush
      refine @Kept.end _ s h _ _ hfound _ List.filter_sublist (fun other hother hne => hkept other hother ?_) _ ?_
      · rwa [hid]
      · cases reserved with
        | false => exact .inl rfl
        | true =>
          refine .inr ⟨call, now, ?_, hadded, hcall ▸ hdue⟩
          rw [← hpushed]
          rfl

/-- There is a number left for the event after this one, and one of the scheduler for this one:
both are of 32 bits. -/
def Fits (s : LuaEnvironment V) : Event V → Prop
  | .addEvent .. => s.added.length + 2 < 2 ^ 32 ∧ s.lastEventId + 1 < 2 ^ 32
  | .schedule => s.lastEventId + 1 < 2 ^ 32
  | _ => True

instance (s : LuaEnvironment V) : ∀ ev, Decidable (Fits s ev)
  | .addEvent .. => inferInstanceAs (Decidable (s.added.length + 2 < 2 ^ 32 ∧ s.lastEventId + 1 < 2 ^ 32))
  | .schedule => inferInstanceAs (Decidable (s.lastEventId + 1 < 2 ^ 32))
  | .stopEvent _ _ | .execute _ _ _ | .take _ | .release _ => inferInstanceAs (Decidable True)

theorem push_of_owned {s t : LuaEnvironment V} (h : Kept s)
    (hget : ∀ k ∈ refs s.registry, get t.registry (some k) = get s.registry (some k))
    {p : ℕ × LuaTimerEventDesc} (hp : p ∈ s.timerEvents) (due : ℕ) : t.push p.2 due = s.push p.2 due := by
  refine push_congr (fun k hk => hget k ?_) due
  exact h.owners.mem_iff.mpr (List.mem_append_right _ (List.mem_flatMap.mpr ⟨p, hp, hk⟩))

theorem Kept.keepEvent {s : LuaEnvironment V} (h : Kept s) (scriptId : ℤ) (function : V)
    (arguments : List (Option V)) (due : ℕ) (hfits : s.added.length + 2 < 2 ^ 32)
    (hnumber : s.lastEventId + 1 < 2 ^ 32) : Kept (s.keepEvent a scriptId function arguments due) := by
  let registry := (refAll a arguments.reverse s.registry).2
  let parameters := (refAll a arguments.reverse s.registry).1
  let ref := a.next (refs registry)
  let desc : LuaTimerEventDesc := { scriptId, function := ref, parameters, eventId := s.lastEventId + 1 }
  let call : Call V := { scriptId, function := some function, arguments, due }
  have hnodup : (refs registry).Nodup := refAll_nodup h.nodup _
  have hnew : s.timerEvents.any (·.1 = s.lastEventTimerId) = false := by
    refine List.any_eq_false.mpr fun p hp heq => ?_
    have hin := h.numbers.mem_iff.mp (List.mem_append_left _ (List.mem_map_of_mem hp))
    have hle := (List.mem_range'_1.mp hin).2
    have hnumber : p.1 = s.lastEventTimerId := of_decide_eq_true heq
    have hnext := h.next
    omega
  have heq : s.keepEvent a scriptId function arguments due = { s with
      registry := (ref, function) :: registry
      timerEvents := s.timerEvents ++ [(s.added.length + 1, desc)]
      lastEventTimerId := s.added.length + 2
      tasks := s.tasks ++ [⟨s.lastEventId + 1, s.added.length + 1, due⟩]
      lastEventId := s.lastEventId + 1
      added := s.added ++ [call] } := by
    have hcount : (s.added.length + 1 + 1) % 2 ^ 32 = s.added.length + 2 := Nat.mod_eq_of_lt hfits
    rw [h.next] at hnew
    simp only [LuaEnvironment.keepEvent, hnew, Bool.false_eq_true, if_false, hcount,
      Nat.mod_eq_of_lt hnumber, h.next, registry, parameters, ref, desc, call]
  rw [heq]
  have hold : ∀ n < s.added.length, (s.added ++ [call])[n]? = s.added[n]? :=
    fun n hn => List.getElem?_append_left hn
  have hplace : ∀ {n : ℕ} {c : Call V}, s.added[n]? = some c → (s.added ++ [call])[n]? = some c := by
    intro n c hc
    rw [hold n (List.getElem?_eq_some_iff.mp hc).1, hc]
  have hlast : (s.added ++ [call])[s.added.length + 1 - 1]? = some call := List.getElem?_concat_length
  have hget : ∀ k ∈ refs s.registry, get ((ref, function) :: registry) (some k) = get s.registry (some k) := by
    intro k hk
    have hin : k ∈ refs registry :=
      (refAll_refs arguments.reverse s.registry).mem_iff.mpr (List.mem_append_right _ hk)
    have hne : k ≠ ref := ne_of_mem_of_not_mem hin (a.fresh _)
    exact (get_cons_of_ne hne).trans (get_refAll_of_mem hk)
  constructor
  case nodup => exact List.nodup_cons.mpr ⟨a.fresh _, hnodup⟩
  case owners =>
    rw [LuaEnvironment.owned, List.flatMap_append, List.flatMap_singleton]
    have hargs := refAll_refs (a := a) arguments.reverse s.registry
    change (ref :: refs registry).Perm (s.others ++ (s.owned ++ (ref :: parameters.reduceOption)))
    have hall := List.Perm.cons ref (hargs.trans (List.Perm.append_left _ h.owners))
    have hswap : ((ref :: parameters.reduceOption) ++ (s.others ++ s.owned)).Perm
        ((s.others ++ s.owned) ++ (ref :: parameters.reduceOption)) := List.perm_append_comm
    rw [List.append_assoc] at hswap
    exact hall.trans hswap
  case next =>
    change s.added.length + 2 = (s.added ++ [call]).length + 1
    rw [List.length_append, List.length_singleton]
  case numbers =>
    rw [List.map_append, List.append_assoc]
    change (s.timerEvents.map Prod.fst ++ ([s.added.length + 1] ++ s.ended)).Perm
      (List.range' 1 (s.added ++ [call]).length)
    rw [List.length_append, List.length_singleton, List.range'_1_concat, Nat.add_comm 1]
    refine (List.Perm.append_left _ List.perm_append_comm).trans ?_
    rw [← List.append_assoc]
    exact List.Perm.append_right _ h.numbers
  case waits =>
    intro p hp
    rcases List.mem_append.mp hp with hp | hp
    · obtain ⟨c, hadded, hpush, task, htask, hid, htimer⟩ := h.waits p hp
      refine ⟨c, hplace hadded, ?_, task, List.mem_append_left _ htask, hid, htimer⟩
      exact (push_of_owned h hget hp _).trans hpush
    · obtain rfl := List.mem_singleton.mp hp
      refine ⟨call, hlast, ?_, _, List.mem_append_right _ (List.mem_singleton.mpr rfl), rfl, rfl⟩
      have hfunction : get ((ref, function) :: registry) (some ref) = some function := by
        simp [Registry.get, Table.lookup]
      have hargs : parameters.reverse.map (get ((ref, function) :: registry)) = arguments := by
        have hsame : parameters.map (get ((ref, function) :: registry)) = parameters.map (get registry) := by
          refine List.map_congr_left fun k hk => ?_
          cases k with
          | none => rfl
          | some k =>
            have hin : k ∈ refs registry := (refAll_refs arguments.reverse s.registry).mem_iff.mpr
              (List.mem_append_left _ (List.reduceOption_mem_iff.mpr hk))
            exact get_cons_of_ne (ne_of_mem_of_not_mem hin (a.fresh _))
        rw [List.map_reverse, hsame, get_refAll, List.reverse_reverse]
      change Call.mk scriptId (get ((ref, function) :: registry) (some ref))
        (parameters.reverse.map (get ((ref, function) :: registry))) _ = _
      rw [hfunction, hargs]
  case calledOnce => exact h.calledOnce
  case called =>
    intro c hc
    obtain ⟨hended, hadded, hdue⟩ := h.called c hc
    exact ⟨hended, hplace hadded, hdue⟩
  case taskIds =>
    change ((s.tasks ++ [_]).map SchedulerTask.id).Nodup
    rw [List.map_append, List.nodup_append]
    refine ⟨h.taskIds, List.nodup_singleton _, ?_⟩
    rintro _ hid _ hnewId rfl
    obtain ⟨task, htask, rfl⟩ := List.mem_map.mp hid
    have hle := (h.tasks task htask).1
    have heq : task.id = s.lastEventId + 1 := List.mem_singleton.mp hnewId
    omega
  case taskTimers =>
    change ((s.tasks ++ [_]).map SchedulerTask.timerEventId).Nodup
    rw [List.map_append, List.nodup_append]
    refine ⟨h.taskTimers, List.nodup_singleton _, ?_⟩
    rintro _ hid _ hnewId rfl
    obtain ⟨task, htask, rfl⟩ := List.mem_map.mp hid
    obtain ⟨-, hpos, c, hc, -⟩ := h.tasks task htask
    have hlt := (List.getElem?_eq_some_iff.mp hc).1
    have heq : task.timerEventId = s.added.length + 1 := List.mem_singleton.mp hnewId
    omega
  case tasks =>
    intro task htask
    rcases List.mem_append.mp htask with htask | htask
    · obtain ⟨hid, hpos, c, hc, hdue⟩ := h.tasks task htask
      exact ⟨Nat.le_succ_of_le hid, hpos, c, hplace hc, hdue⟩
    · rw [List.mem_singleton.mp htask]
      exact ⟨le_rfl, Nat.succ_pos _, call, hlast, rfl⟩
  case descIds =>
    rw [List.map_append, List.nodup_append]
    refine ⟨h.descIds, List.nodup_singleton _, ?_⟩
    rintro _ hid _ hnewId rfl
    obtain ⟨p, hp, rfl⟩ := List.mem_map.mp hid
    obtain ⟨-, -, -, task, htask, heqId, -⟩ := h.waits p hp
    have hle := (h.tasks task htask).1
    have heq : p.2.eventId = s.lastEventId + 1 := List.mem_singleton.mp hnewId
    omega

theorem Kept.take {s : LuaEnvironment V} (h : Kept s) (value : V) : Kept (step a s (.take value)) := by
  have hget : ∀ k ∈ refs s.registry,
      get ((a.next (refs s.registry), value) :: s.registry) (some k) = get s.registry (some k) :=
    fun k hk => get_cons_of_ne (ne_of_mem_of_not_mem hk (a.fresh _))
  refine { h with nodup := ?_, owners := ?_, waits := ?_ }
  · exact List.nodup_cons.mpr ⟨a.fresh _, h.nodup⟩
  · exact h.owners.cons _
  · intro p hp
    obtain ⟨call, hadded, hpush, htask⟩ := h.waits p hp
    exact ⟨call, hadded, (push_of_owned h hget hp _).trans hpush, htask⟩

theorem Kept.release {s : LuaEnvironment V} (h : Kept s) (ref : ℕ) : Kept (step a s (.release ref)) := by
  rw [step]
  split
  · rename_i href
    have hsplit : (refs s.registry).Perm ([ref] ++ (s.others.erase ref ++ s.owned)) :=
      h.owners.trans (List.Perm.append_right _ (List.perm_cons_erase href))
    refine { h with nodup := ?_, owners := ?_, waits := ?_ }
    · rw [refs_unrefAll]
      exact h.nodup.filter _
    · exact unrefAll_perm h.nodup hsplit
    · intro p hp
      obtain ⟨call, hadded, hpush, htask⟩ := h.waits p hp
      refine ⟨call, hadded, ?_, htask⟩
      rw [← hpush]
      refine push_congr (fun k hk => get_unrefAll fun heq => ?_) _
      have hown : k ∈ s.owned := List.mem_flatMap.mpr ⟨p, hp, hk⟩
      rw [List.mem_singleton.mp heq] at hown
      exact List.disjoint_of_nodup_append (h.owners.nodup_iff.mp h.nodup) href hown
  · exact h

theorem Kept.schedule {s : LuaEnvironment V} (h : Kept s) (hnumber : s.lastEventId + 1 < 2 ^ 32) :
    Kept (step a s .schedule) := by
  refine { h with tasks := fun task htask => ?_ }
  obtain ⟨hid, htimer⟩ := h.tasks task htask
  refine ⟨?_, htimer⟩
  change task.id ≤ (s.lastEventId + 1) % 2 ^ 32
  rw [Nat.mod_eq_of_lt hnumber]
  exact Nat.le_succ_of_le hid

theorem Kept.step {s : LuaEnvironment V} (h : Kept s) {ev : Event V} (hfits : Fits s ev) : Kept (step a s ev) := by
  cases ev with
  | addEvent lua scriptId function delay arguments now =>
    exact h.keepEvent a scriptId function (lua.convertAll arguments) _ hfits.1 hfits.2
  | stopEvent eventId caught => exact h.luaStopEvent eventId caught
  | execute id now reserved => exact h.execute a id now reserved
  | take value => exact h.take a value
  | release ref => exact h.release a ref
  | schedule => exact h.schedule a hfits

theorem Kept.init : Kept ({} : LuaEnvironment V) := by
  constructor <;> simp [refs, LuaEnvironment.owned]

theorem run_added (evs : List (Event V)) : (run (step a) {} evs).added = evs.filterMap Event.asked := by
  have hstep : ∀ (s : LuaEnvironment V) ev, (step a s ev).added = s.added ++ ev.asked.toList := by
    intro s ev
    cases ev with
    | addEvent lua scriptId function delay arguments now => rfl
    | stopEvent eventId caught =>
      simp only [step, LuaEnvironment.luaStopEvent]
      split <;> simp [Event.asked, LuaEnvironment.free, LuaEnvironment.erase]
    | execute id now reserved =>
      simp only [step, LuaEnvironment.executeTimerEvent]
      split
      · simp [Event.asked]
      · split <;> simp [Event.asked, LuaEnvironment.free, LuaEnvironment.erase]
    | take value => simp [step, Event.asked]
    | release ref =>
      simp only [step]
      split <;> simp [Event.asked]
    | schedule => simp [step, Event.asked]
  induction evs using List.reverseRecOn with
  | nil => rfl
  | append_singleton evs ev ih =>
    have hlast : [ev].filterMap Event.asked = ev.asked.toList := by
      rw [List.filterMap_cons]
      cases ev.asked <;> rfl
    rw [run_append, run_cons, run_nil, hstep, ih, List.filterMap_append, hlast]

/-- The reference after the largest in use. -/
def nextRef : Allocator where
  next used := used.foldr max 0 + 1
  fresh used hin := by
    have hle : ∀ (used : List ℕ) (k : ℕ), k ∈ used → k ≤ used.foldr max 0 := by
      intro used k hk
      induction used with
      | nil => cases hk
      | cons k' used ih =>
        rcases List.mem_cons.mp hk with rfl | hk
        · exact Nat.le_max_left _ _
        · exact (ih hk).trans (Nat.le_max_right _ _)
    exact absurd (hle used _ hin) (by omega)

def rat : Lua String where
  convertUnsafeScripts := true
  dataType value := if value = "rat" then .monster else .unknown
  getUniqueId _ := none
  getId _ := some "9"

/-- One event is stopped, the other called. -/
def twoEvents : List (Event String) :=
  [.addEvent rat 7 "heal" 500 [some "hi"] 0, .addEvent rat 7 "say" 0 [none, some "rat"] 3, .stopEvent 1 true,
    .execute 2 103 true]

end ForgottenServer.Scripts.TimerEvents
