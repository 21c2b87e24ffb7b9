import ForgottenServer.Lib.Run
import Mathlib.Data.List.Nodup
import Mathlib.Data.List.Perm.Subperm
import Mathlib.Data.List.Range
import Mathlib.Tactic.Common
import Mathlib.Tactic.Ring

/-! # Global events

`GlobalEvents`: scripts that run every so often (`thinkMap`), and scripts that run at
a time of the day (`timerMap`). A call of `think` or `timer` runs what is due and
schedules the next one. Times of the former are in milliseconds, those of the latter
in seconds. What a script answers belongs to the call, and so does the time; what
scripts do to the events while these are gone through is left out. -/
namespace ForgottenServer.Events
open ForgottenServer.Lib.Run

/-- `SCHEDULER_MINTICKS`. -/
def schedulerMinTicks : ℤ := 50

structure GlobalEvent where
  name : String
  fromLua : Bool
  /-- of the type `GLOBALEVENT_TIMER`, and of `GLOBALEVENT_NONE` otherwise -/
  timer : Bool
  interval : ℕ
  nextExecution : ℤ
  /-- the how-manieth event that was registered -/
  ref : ℕ
  deriving DecidableEq, Repr

/-- One of the maps, sorted by name, with the call that is scheduled for it. -/
structure Table where
  map : List GlobalEvent := []
  /-- `thinkEventId` or `timerEventId` -/
  eventId : ℕ := 0
  /-- the calls that have not been made yet: their ids, and when they are due -/
  pending : List (ℕ × ℤ) := []
  deriving DecidableEq, Repr

/-- A script was run: of which event, when it was due and when it was run. -/
structure Execution where
  ref : ℕ
  due : ℤ
  now : ℤ
  deriving DecidableEq, Repr

structure GlobalEvents where
  thinks : Table := {}
  timers : Table := {}
  /-- of the scheduler -/
  lastEventId : ℕ := 0
  /-- the events as they were registered, oldest first -/
  registered : List GlobalEvent := []
  executed : List Execution := []
  deriving DecidableEq, Repr

/-- `std::map::emplace`, which does not replace. -/
def emplace (e : GlobalEvent) (map : List GlobalEvent) : Option (List GlobalEvent) :=
  if map.any (·.name = e.name) then none
  else some (map.takeWhile (·.name < e.name) ++ e :: map.dropWhile (·.name < e.name))

/-- `g_scheduler.addEvent`, with the id `id`. -/
def Table.schedule (t : Table) (id : ℕ) (due : ℤ) : Table :=
  { t with eventId := id, pending := t.pending ++ [(id, due)] }

/-- `registerEvent` and `registerLuaEvent`, for one map. -/
def Table.register (t : Table) (e : GlobalEvent) (id : ℕ) (now : ℤ) : Option Table :=
  match emplace e t.map with
  | none => none
  | some map =>
    let t := { t with map }
    some (if t.eventId = 0 then t.schedule id (now + schedulerMinTicks) else t)

/-- What a pass over a map does with an event: the script may be run, the event may be
kept, and it has a say in when the next call is made. -/
structure Visit where
  execution : Option Execution
  kept : Option GlobalEvent
  wait : ℤ

/-- The body of the loop in `think`. -/
def thinkVisit (now : ℤ) (e : GlobalEvent) : Visit :=
  let nextExecutionTime := e.nextExecution - now
  if nextExecutionTime > 0 then { execution := none, kept := some e, wait := nextExecutionTime }
  else
    { execution := some { ref := e.ref, due := e.nextExecution, now }
      kept := some { e with nextExecution := e.nextExecution + e.interval }
      wait := e.interval }

/-- The body of the loop in `timer`. -/
def timerVisit (now : ℤ) (succeeds : ℕ → Bool) (e : GlobalEvent) : Visit :=
  let nextExecutionTime := e.nextExecution - now
  if nextExecutionTime > 0 then { execution := none, kept := some e, wait := nextExecutionTime }
  else
    { execution := some { ref := e.ref, due := e.nextExecution, now }
      kept := if succeeds e.ref then some { e with nextExecution := e.nextExecution + 86400 } else none
      wait := 86400 }

/-- `nextScheduledTime`, if an event is kept. -/
def nextScheduledTime (visits : List Visit) : Option ℤ :=
  ((visits.filter (·.kept.isSome)).map (·.wait)).min?

/-- A call over one map: what is kept, and the next call, `delay` after the shortest wait. -/
def Table.pass (t : Table) (visit : GlobalEvent → Visit) (id : ℕ) (now : ℤ) (delay : ℤ → ℤ) : Table :=
  let visits := t.map.map visit
  let t := { t with map := visits.filterMap (·.kept) }
  match nextScheduledTime visits with
  | none => t
  | some wait => t.schedule id (now + delay wait)

/-- The scheduled call `id` is made. -/
def Table.take (t : Table) (id : ℕ) : Table :=
  { t with pending := t.pending.filter (·.1 ≠ id) }

/-- The scheduler takes a delay as a `uint32_t`. -/
def uint32 (delay : ℤ) : ℤ := delay % 2 ^ 32

/-- `clear`, for one map. `caught` says whether `stopEvent` came in time. -/
def Table.clear (t : Table) (fromLua caught : Bool) : Table where
  map := t.map.filter (·.fromLua ≠ fromLua)
  eventId := 0
  pending := if caught then t.pending.filter (·.1 ≠ t.eventId) else t.pending

inductive Event
  | register (name : String) (fromLua timer : Bool) (interval : ℕ) (nextExecution now : ℤ)
  /-- `think` is called, scheduled under this id, in milliseconds -/
  | think (id : ℕ) (now : ℤ)
  /-- `timer` is called; the time is in milliseconds, and `succeeds` what the scripts answer -/
  | timer (id : ℕ) (now : ℤ) (succeeds : ℕ → Bool)
  | clear (fromLua caughtThink caughtTimer : Bool)

def GlobalEvents.register (s : GlobalEvents) (e : GlobalEvent) (now : ℤ) : GlobalEvents :=
  let id := s.lastEventId + 1
  if e.timer then
    match s.timers.register e id now with
    | none => s
    | some timers => { s with timers, lastEventId := id, registered := s.registered ++ [e] }
  else
    match s.thinks.register e id now with
    | none => s
    | some thinks => { s with thinks, lastEventId := id, registered := s.registered ++ [e] }

/-- Whether the call can be made now. -/
def Table.due (t : Table) (id : ℕ) (now : ℤ) : Bool := t.pending.any fun p => p.1 = id && p.2 ≤ now

def GlobalEvents.think (s : GlobalEvents) (id : ℕ) (now : ℤ) : GlobalEvents :=
  let t := s.thinks.take id
  { s with
    thinks := t.pass (thinkVisit now) (s.lastEventId + 1) now uint32
    lastEventId := s.lastEventId + 1
    executed := s.executed ++ t.map.filterMap fun e => (thinkVisit now e).execution }

def GlobalEvents.timer (s : GlobalEvents) (id : ℕ) (now : ℤ) (succeeds : ℕ → Bool) : GlobalEvents :=
  let t := s.timers.take id
  let visit := timerVisit (now / 1000) succeeds
  { s with
    timers := t.pass visit (s.lastEventId + 1) now fun wait => uint32 (max 1000 (wait * 1000))
    lastEventId := s.lastEventId + 1
    executed := s.executed ++ t.map.filterMap fun e => (visit e).execution }

/-- One step; a call that is not due does not happen. -/
def step (s : GlobalEvents) : Event → GlobalEvents
  | .register name fromLua timer interval nextExecution now =>
    s.register { name, fromLua, timer, interval, nextExecution, ref := s.registered.length } now
  | .think id now => if s.thinks.due id now then s.think id now else s
  | .timer id now succeeds => if s.timers.due id now then s.timer id now succeeds else s
  | .clear fromLua caughtThink caughtTimer =>
    { s with
      thinks := s.thinks.clear fromLua caughtThink
      timers := s.timers.clear fromLua caughtTimer }

/-! ## Every event at its own pace -/

/-- A day for a timer; both times are in the unit of the event. -/
def GlobalEvent.period (e : GlobalEvent) : ℤ := if e.timer then 86400 else e.interval

def GlobalEvents.events (s : GlobalEvents) : List GlobalEvent := s.thinks.map ++ s.timers.map

/-- The first `n` dates of an event. -/
def GlobalEvent.dates (e : GlobalEvent) (n : ℕ) : List ℤ :=
  (List.range n).map fun j : ℕ => e.nextExecution + j * e.period

/-- The runs of the event that was registered as the `k`-th. -/
def runsOf (k : ℕ) (executed : List Execution) : List Execution := executed.filter (·.ref = k)

/-- What goes through the events does to each of them: nothing, or it was due and was run. -/
def Serves (now : ℤ) (visit : GlobalEvent → Visit) : Prop :=
  ∀ e, ((visit e).execution = none ∧ (visit e).kept = some e) ∨ (e.nextExecution ≤ now ∧
      (visit e).execution = some { ref := e.ref, due := e.nextExecution, now } ∧
      ∀ e', (visit e).kept = some e' → e' = { e with nextExecution := e.nextExecution + e.period })

/-- The event in a map is one that was registered, `n` periods on after `n` runs. -/
def UpToDate (registered : List GlobalEvent) (executed : List Execution) (e : GlobalEvent) : Prop :=
  ∃ first, registered[e.ref]? = some first ∧ e.period = first.period ∧
    e.nextExecution = first.nextExecution + (runsOf e.ref executed).length * first.period

/-- The runs of each event so far, with the events that are in the maps. -/
structure OnTime (registered events : List GlobalEvent) (executed : List Execution) : Prop where
  nodup : (events.map (·.ref)).Nodup
  upToDate : ∀ e ∈ events, UpToDate registered executed e
  fresh : ∀ x ∈ executed, x.ref < registered.length
  late : ∀ x ∈ executed, x.due ≤ x.now
  dates : ∀ k first, registered[k]? = some first →
    (runsOf k executed).map (·.due) = first.dates (runsOf k executed).length

theorem runsOf_append (k : ℕ) (xs ys : List Execution) :
    runsOf k (xs ++ ys) = runsOf k xs ++ runsOf k ys := by simp [runsOf]

theorem runsOf_eq_nil {k : ℕ} {xs : List Execution} (h : ∀ x ∈ xs, x.ref ≠ k) : runsOf k xs = [] := by
  simpa [runsOf] using h

theorem Serves.ref {now : ℤ} {visit : GlobalEvent → Visit} (h : Serves now visit) {e : GlobalEvent} :
    (∀ x, (visit e).execution = some x → x.ref = e.ref) ∧ ∀ e', (visit e).kept = some e' → e'.ref = e.ref := by
  obtain ⟨hx, hk⟩ | ⟨-, hx, hk⟩ := h e
  · rw [hx, hk]
    exact ⟨by simp, by rintro e' ⟨⟩; rfl⟩
  · rw [hx]
    refine ⟨by rintro x ⟨⟩; rfl, fun e' he' => ?_⟩
    rw [hk e' he']

/-- No other event has a run of this one. -/
theorem runsOf_executions {now : ℤ} {visit : GlobalEvent → Visit} (h : Serves now visit) {events : List GlobalEvent}
    (hnodup : (events.map (·.ref)).Nodup) {e : GlobalEvent} (he : e ∈ events) :
    runsOf e.ref (events.filterMap fun e => (visit e).execution) = (visit e).execution.toList := by
  induction events with
  | nil => cases he
  | cons first rest ih =>
    rw [List.map_cons, List.nodup_cons] at hnodup
    have hsplit : (first :: rest).filterMap (fun e => (visit e).execution) =
        (visit first).execution.toList ++ rest.filterMap fun e => (visit e).execution := by
      rw [List.filterMap_cons]
      cases (visit first).execution <;> rfl
    rw [hsplit, runsOf_append]
    rcases List.mem_cons.mp he with rfl | hrest
    · have hothers : runsOf e.ref (rest.filterMap fun e => (visit e).execution) = [] := by
        refine runsOf_eq_nil fun x hx => ?_
        obtain ⟨e', he', hx⟩ := List.mem_filterMap.mp hx
        rw [h.ref.1 x hx]
        exact fun heq => hnodup.1 (List.mem_map.mpr ⟨e', he', heq⟩)
      have hown : runsOf e.ref (visit e).execution.toList = (visit e).execution.toList := by
        refine List.filter_eq_self.mpr fun x hx => ?_
        simpa using h.ref.1 x (Option.mem_toList.mp hx)
      rw [hothers, hown, List.append_nil]
    · have hfirst : runsOf e.ref (visit first).execution.toList = [] := by
        refine runsOf_eq_nil fun x hx => ?_
        rw [h.ref.1 x (Option.mem_toList.mp hx)]
        exact fun heq => hnodup.1 (List.mem_map.mpr ⟨e, hrest, heq.symm⟩)
      rw [hfirst, ih hnodup.2 hrest, List.nil_append]

theorem Serves.mem_executions {now : ℤ} {visit : GlobalEvent → Visit} (h : Serves now visit)
    {events : List GlobalEvent} :
    ∀ x ∈ events.filterMap (fun e => (visit e).execution),
      ∃ e ∈ events, e.ref = x.ref ∧ x.due = e.nextExecution ∧ x.due ≤ x.now := by
  intro x hx
  obtain ⟨e, he, hx⟩ := List.mem_filterMap.mp hx
  obtain ⟨hnone, -⟩ | ⟨hdue, hsome, -⟩ := h e
  · rw [hnone] at hx
    cases hx
  · rw [hsome] at hx
    cases hx
    exact ⟨e, he, rfl, rfl, hdue⟩

theorem dates_append {first : GlobalEvent} {runs more : List Execution}
    (hruns : runs.map (·.due) = first.dates runs.length)
    (hmore : more = [] ∨ ∃ x, more = [x] ∧ x.due = first.nextExecution + runs.length * first.period) :
    (runs ++ more).map (·.due) = first.dates (runs ++ more).length := by
  rcases hmore with rfl | ⟨x, rfl, hx⟩
  · rwa [List.append_nil]
  · rw [List.map_append, hruns, List.length_append, List.length_singleton, GlobalEvent.dates,
      GlobalEvent.dates, List.range_succ, List.map_append, List.map_singleton, List.map_singleton, hx]

theorem OnTime.pass {now : ℤ} {visit : GlobalEvent → Visit} (h : Serves now visit)
    {registered events : List GlobalEvent} {executed : List Execution} (ht : OnTime registered events executed) :
    OnTime registered (events.filterMap fun e => (visit e).kept)
      (executed ++ events.filterMap fun e => (visit e).execution) := by
  have hnew := @Serves.mem_executions _ _ h events
  constructor
  case nodup =>
    refine ht.nodup.sublist ?_
    have hrefs : ∀ es : List GlobalEvent,
        ((es.filterMap fun e => (visit e).kept).map (·.ref)).Sublist (es.map (·.ref)) := by
      intro es
      induction es with
      | nil => exact List.Sublist.refl _
      | cons e es ih =>
        rw [List.filterMap_cons]
        cases hk : (visit e).kept with
        | none => exact ih.cons _
        | some e' =>
          rw [List.map_cons, List.map_cons, h.ref.2 e' hk]
          exact ih.cons_cons _
    exact hrefs events
  case upToDate =>
    intro e' he'
    obtain ⟨e, he, hk⟩ := List.mem_filterMap.mp he'
    obtain ⟨first, hknown, hperiod, hnext⟩ := ht.upToDate e he
    have href := h.ref.2 e' hk
    refine ⟨first, by rw [href, hknown], ?_⟩
    rw [href, runsOf_append, runsOf_executions h ht.nodup he, List.length_append]
    obtain ⟨hx, hsame⟩ | ⟨-, hx, hkept⟩ := h e
    · rw [hsame] at hk
      cases hk
      rw [hx]
      exact ⟨hperiod, by simpa using hnext⟩
    · rw [hkept e' hk, hx]
      refine ⟨hperiod, ?_⟩
      simp only [Option.toList_some, List.length_singleton, Nat.cast_add, Nat.cast_one]
      rw [hnext, hperiod]
      ring
  case fresh =>
    intro x hx
    rcases List.mem_append.mp hx with hx | hx
    · exact ht.fresh x hx
    · obtain ⟨e, he, href, -⟩ := hnew x hx
      obtain ⟨first, hknown, -⟩ := ht.upToDate e he
      exact href ▸ (List.getElem?_eq_some_iff.mp hknown).1
  case late =>
    intro x hx
    rcases List.mem_append.mp hx with hx | hx
    · exact ht.late x hx
    · obtain ⟨-, -, -, -, hlate⟩ := hnew x hx
      exact hlate
  case dates =>
    intro k first hk
    rw [runsOf_append]
    refine dates_append (ht.dates k first hk) ?_
    by_cases hin : ∃ e ∈ events, e.ref = k
    · obtain ⟨e, he, rfl⟩ := hin
      rw [runsOf_executions h ht.nodup he]
      obtain ⟨hx, -⟩ | ⟨-, hx, -⟩ := h e
      · exact .inl (by rw [hx]; rfl)
      · obtain ⟨first', hknown, hperiod, hnext⟩ := ht.upToDate e he
        obtain rfl : first = first' := by rw [hk] at hknown; exact Option.some.inj hknown
        exact .inr ⟨_, by rw [hx]; rfl, hnext⟩
    · refine .inl (runsOf_eq_nil fun x hx => ?_)
      obtain ⟨e, he, href, -⟩ := hnew x hx
      exact fun hxk => hin ⟨e, he, href.trans hxk⟩

/-! ## The steps -/

theorem mem_emplace {e : GlobalEvent} {map map' : List GlobalEvent} (h : emplace e map = some map') :
    map'.Perm (e :: map) := by
  rw [emplace] at h
  split at h
  · cases h
  · cases h
    refine List.perm_middle.trans ?_
    rw [List.takeWhile_append_dropWhile]

/-- `think` leaves the timers alone. -/
def thinkVisits (now : ℤ) (e : GlobalEvent) : Visit :=
  if e.timer then { execution := none, kept := some e, wait := 0 } else thinkVisit now e

/-- And `timer` the others. -/
def timerVisits (now : ℤ) (succeeds : ℕ → Bool) (e : GlobalEvent) : Visit :=
  if e.timer then timerVisit now succeeds e else { execution := none, kept := some e, wait := 0 }

theorem thinkVisits_serves (now : ℤ) : Serves now (thinkVisits now) := by
  intro e
  by_cases htimer : e.timer
  · exact .inl (by simp [thinkVisits, htimer])
  rw [thinkVisits, if_neg htimer, thinkVisit]
  split
  · exact .inl ⟨rfl, rfl⟩
  · refine .inr ⟨by omega, rfl, ?_⟩
    rintro e' ⟨⟩
    rw [GlobalEvent.period, if_neg htimer]

theorem timerVisits_serves (now : ℤ) (succeeds : ℕ → Bool) : Serves now (timerVisits now succeeds) := by
  intro e
  by_cases htimer : e.timer
  · rw [timerVisits, if_pos htimer, timerVisit]
    split
    · exact .inl ⟨rfl, rfl⟩
    · refine .inr ⟨by omega, rfl, fun e' he' => ?_⟩
      split at he'
      · cases he'
        rw [GlobalEvent.period, if_pos htimer]
      · cases he'
  · exact .inl (by simp [timerVisits, htimer])

/-- Either map holds the events of its type. -/
structure Typed (s : GlobalEvents) : Prop where
  thinks : ∀ e ∈ s.thinks.map, e.timer = false
  timers : ∀ e ∈ s.timers.map, e.timer = true

theorem pass_map (t : Table) (visit : GlobalEvent → Visit) (id : ℕ) (now : ℤ) (delay : ℤ → ℤ) :
    (t.pass visit id now delay).map = t.map.filterMap fun e => (visit e).kept := by
  rw [Table.pass]
  split
  · exact List.filterMap_map
  · exact List.filterMap_map

theorem think_events {s : GlobalEvents} (h : Typed s) (id : ℕ) (now : ℤ) :
    (s.think id now).events = s.events.filterMap (fun e => (thinkVisits now e).kept) ∧ (s.think id now).executed =
        s.executed ++ s.events.filterMap fun e => (thinkVisits now e).execution := by
  have hthink : ∀ e ∈ s.thinks.map, thinkVisits now e = thinkVisit now e := by
    intro e he
    rw [thinkVisits, h.thinks e he, if_neg Bool.false_ne_true]
  have htimer : ∀ e ∈ s.timers.map, thinkVisits now e = { execution := none, kept := some e, wait := 0 } := by
    intro e he
    rw [thinkVisits, if_pos (h.timers e he)]
  constructor
  · rw [GlobalEvents.events, GlobalEvents.events, List.filterMap_append]
    congr 1
    · exact (pass_map _ _ _ _ _).trans (List.filterMap_congr fun e he => by rw [hthink e he])
    · rw [List.filterMap_congr fun e he => by rw [htimer e he], List.filterMap_some]
      rfl
  · rw [GlobalEvents.events, List.filterMap_append, List.filterMap_congr fun e he => by rw [hthink e he],
      List.filterMap_eq_nil_iff (l := s.timers.map) |>.mpr fun e he => by rw [htimer e he], List.append_nil]
    rfl

theorem timer_events {s : GlobalEvents} (h : Typed s) (id : ℕ) (now : ℤ) (succeeds : ℕ → Bool) :
    (s.timer id now succeeds).events = s.events.filterMap (fun e => (timerVisits (now / 1000) succeeds e).kept) ∧
      (s.timer id now succeeds).executed =
        s.executed ++ s.events.filterMap fun e => (timerVisits (now / 1000) succeeds e).execution := by
  have hthink : ∀ e ∈ s.thinks.map, timerVisits (now / 1000) succeeds e =
      { execution := none, kept := some e, wait := 0 } := by
    intro e he
    rw [timerVisits, h.thinks e he, if_neg Bool.false_ne_true]
  have htimer : ∀ e ∈ s.timers.map, timerVisits (now / 1000) succeeds e = timerVisit (now / 1000) succeeds e := by
    intro e he
    rw [timerVisits, if_pos (h.timers e he)]
  constructor
  · rw [GlobalEvents.events, GlobalEvents.events, List.filterMap_append]
    congr 1
    · rw [List.filterMap_congr fun e he => by rw [hthink e he], List.filterMap_some]
      rfl
    · exact (pass_map _ _ _ _ _).trans (List.filterMap_congr fun e he => by rw [htimer e he])
  · rw [GlobalEvents.events, List.filterMap_append,
      List.filterMap_eq_nil_iff (l := s.thinks.map) |>.mpr fun e he => by rw [hthink e he],
      List.filterMap_congr fun e he => by rw [htimer e he], List.nil_append]
    rfl

/-- The dates of every event are those of its runs. -/
structure Punctual (s : GlobalEvents) : Prop where
  typed : Typed s
  onTime : OnTime s.registered s.events s.executed

theorem Typed.of_think {s : GlobalEvents} (h : Typed s) (id : ℕ) (now : ℤ) : Typed (s.think id now) where
  thinks := by
    intro e' he'
    rw [GlobalEvents.think, pass_map] at he'
    obtain ⟨e, he, hk⟩ := List.mem_filterMap.mp he'
    have hfalse := h.thinks e he
    rw [thinkVisit] at hk
    split at hk
    all_goals
      cases hk
      exact hfalse
  timers := h.timers

theorem Typed.of_timer {s : GlobalEvents} (h : Typed s) (id : ℕ) (now : ℤ) (succeeds : ℕ → Bool) :
    Typed (s.timer id now succeeds) where
  thinks := h.thinks
  timers := by
    intro e' he'
    rw [GlobalEvents.timer, pass_map] at he'
    obtain ⟨e, he, hk⟩ := List.mem_filterMap.mp he'
    have htrue := h.timers e he
    rw [timerVisit] at hk
    split at hk
    · cases hk
      exact htrue
    · simp only at hk
      split at hk
      · cases hk
        exact htrue
      · cases hk

theorem Punctual.think {s : GlobalEvents} (h : Punctual s) (id : ℕ) (now : ℤ) : Punctual (s.think id now) where
  typed := h.typed.of_think id now
  onTime := by
    obtain ⟨hevents, hexecuted⟩ := think_events h.typed id now
    rw [hevents, hexecuted]
    exact h.onTime.pass (thinkVisits_serves now)

theorem Punctual.timer {s : GlobalEvents} (h : Punctual s) (id : ℕ) (now : ℤ) (succeeds : ℕ → Bool) :
    Punctual (s.timer id now succeeds) where
  typed := h.typed.of_timer id now succeeds
  onTime := by
    obtain ⟨hevents, hexecuted⟩ := timer_events h.typed id now succeeds
    rw [hevents, hexecuted]
    exact h.onTime.pass (timerVisits_serves _ succeeds)

theorem OnTime.subperm {registered events events' : List GlobalEvent} {executed : List Execution}
    (h : OnTime registered events executed) (hsub : events'.Subperm events) : OnTime registered events' executed where
  nodup := by
    obtain ⟨l, hperm, hl⟩ := hsub
    exact (hperm.map _).nodup_iff.mp (h.nodup.sublist (hl.map _))
  upToDate e he := h.upToDate e (hsub.subset he)
  fresh := h.fresh
  late := h.late
  dates := h.dates

theorem Punctual.clear {s : GlobalEvents} (h : Punctual s) (fromLua caughtThink caughtTimer : Bool) :
    Punctual { s with
      thinks := s.thinks.clear fromLua caughtThink
      timers := s.timers.clear fromLua caughtTimer } where
  typed := ⟨fun e he => h.typed.thinks e (List.mem_of_mem_filter he),
    fun e he => h.typed.timers e (List.mem_of_mem_filter he)⟩
  onTime := h.onTime.subperm
    (List.Sublist.append List.filter_sublist List.filter_sublist).subperm

theorem OnTime.cons {registered events : List GlobalEvent} {executed : List Execution}
    (h : OnTime registered events executed) {e : GlobalEvent} (he : e.ref = registered.length) :
    OnTime (registered ++ [e]) (e :: events) executed := by
  have hnone : runsOf registered.length executed = [] :=
    runsOf_eq_nil fun x hx => (h.fresh x hx).ne
  have hold : ∀ e' ∈ events, e'.ref < registered.length := by
    intro e' he'
    obtain ⟨first, hknown, -⟩ := h.upToDate e' he'
    exact (List.getElem?_eq_some_iff.mp hknown).1
  constructor
  case nodup =>
    rw [List.map_cons, List.nodup_cons]
    refine ⟨fun hmem => ?_, h.nodup⟩
    obtain ⟨e', he', href⟩ := List.mem_map.mp hmem
    have := hold e' he'
    omega
  case upToDate =>
    intro e' he'
    rcases List.mem_cons.mp he' with rfl | he'
    · refine ⟨e', by rw [he, List.getElem?_concat_length], rfl, ?_⟩
      rw [he, hnone]
      simp
    · obtain ⟨first, hknown, hrest⟩ := h.upToDate e' he'
      exact ⟨first, by rw [List.getElem?_append_left (hold e' he'), hknown], hrest⟩
  case fresh =>
    intro x hx
    have := h.fresh x hx
    rw [List.length_append, List.length_singleton]
    omega
  case late => exact h.late
  case dates =>
    intro k first hk
    by_cases hlt : k < registered.length
    · rw [List.getElem?_append_left hlt] at hk
      exact h.dates k first hk
    · have hrange := (List.getElem?_eq_some_iff.mp hk).1
      rw [List.length_append, List.length_singleton] at hrange
      obtain rfl : k = registered.length := by omega
      rw [hnone]
      rfl

theorem Punctual.register {s : GlobalEvents} (h : Punctual s) {e : GlobalEvent}
    (he : e.ref = s.registered.length) (now : ℤ) : Punctual (s.register e now) := by
  rw [GlobalEvents.register]
  have hmap : ∀ {t t' : Table} {id}, t.register e id now = some t' → t'.map.Perm (e :: t.map) := by
    intro t t' id ht
    rw [Table.register] at ht
    split at ht
    · cases ht
    · rename_i map hmap
      simp only at ht
      split at ht
      all_goals
        cases ht
        exact mem_emplace hmap
  split
  · rename_i htimer
    split
    · exact h
    · rename_i timers ht
      have hperm := hmap ht
      refine ⟨⟨h.typed.thinks, fun e' he' => ?_⟩, ?_⟩
      · rcases List.mem_cons.mp (hperm.subset he') with rfl | he'
        · exact htimer
        · exact h.typed.timers e' he'
      · refine (h.onTime.cons he).subperm (List.Perm.subperm ?_)
        exact (List.Perm.append_left _ hperm).trans List.perm_middle
  · rename_i htimer
    split
    · exact h
    · rename_i thinks ht
      have hperm := hmap ht
      refine ⟨⟨fun e' he' => ?_, h.typed.timers⟩, ?_⟩
      · rcases List.mem_cons.mp (hperm.subset he') with rfl | he'
        · exact Bool.eq_false_of_not_eq_true htimer
        · exact h.typed.thinks e' he'
      · exact (h.onTime.cons he).subperm (List.Perm.append_right _ hperm).subperm

theorem Punctual.step {s : GlobalEvents} (h : Punctual s) (ev : Event) : Punctual (step s ev) := by
  cases ev with
  | register => exact h.register rfl _
  | think id now =>
    rw [Events.step]
    split
    · exact h.think id now
    · exact h
  | timer id now succeeds =>
    rw [Events.step]
    split
    · exact h.timer id now succeeds
    · exact h
  | clear fromLua caughtThink caughtTimer => exact h.clear fromLua caughtThink caughtTimer

theorem Punctual.init : Punctual {} where
  typed := ⟨by simp, by simp⟩
  onTime := ⟨by simp [GlobalEvents.events], by simp [GlobalEvents.events], by simp, by simp, by simp⟩

theorem punctual_run (evs : List Event) : Punctual (run step {} evs) :=
  inv_run (fun _ ev h _ => h.step ev) Punctual.init (Along.of_forall fun _ _ => trivial)

/-- Whatever is registered, cleared, called late or more than once: an event is run at
its dates, one after the other, none left out and none twice, and never before it is due. -/
theorem events_run_at_their_dates (evs : List Event) :
    let s := run step {} evs
    (∀ k first, s.registered[k]? = some first →
      (runsOf k s.executed).map (·.due) = first.dates (runsOf k s.executed).length) ∧
    ∀ x ∈ s.executed, x.ref < s.registered.length ∧ x.due ≤ x.now := by
  have h := (punctual_run evs).onTime
  exact ⟨h.dates, fun x hx => ⟨h.fresh x hx, h.late x hx⟩⟩

/-! ## The next call -/

/-- If there are events, a call will be made for them. -/
def Table.Live (t : Table) : Prop := t.map ≠ [] → t.pending ≠ []

/-- A new event finds a call, or no id of one: the id stays when the calls have ended. -/
def Table.Starts (t : Table) (name : String) : Prop :=
  t.map.any (·.name = name) = false → t.eventId = 0 ∨ t.pending ≠ []

/-- What is not cleared has a call left, other than the one that is stopped. -/
def Table.Spares (t : Table) (fromLua caught : Bool) : Prop :=
  caught = true → (∃ e ∈ t.map, e.fromLua ≠ fromLua) → ∃ p ∈ t.pending, p.1 ≠ t.eventId

def GlobalEvents.Live (s : GlobalEvents) : Prop := s.thinks.Live ∧ s.timers.Live

/-- The step does not leave events behind without a call. -/
def Continues (s : GlobalEvents) : Event → Prop
  | .register name _ timer _ _ _ => if timer then s.timers.Starts name else s.thinks.Starts name
  | .think _ _ => True
  | .timer _ _ _ => True
  | .clear fromLua caughtThink caughtTimer =>
    s.thinks.Spares fromLua caughtThink ∧ s.timers.Spares fromLua caughtTimer

theorem Table.live_register {t : Table} (h : t.Live) (e : GlobalEvent) (id : ℕ) (now : ℤ) :
    ((t.register e id now).getD t).Live ↔ t.Starts e.name := by
  rw [Table.register, emplace, Table.Starts]
  by_cases hany : t.map.any (·.name = e.name) = true
  · rw [if_pos hany, hany]
    exact ⟨fun _ => nofun, fun _ => h⟩
  · rw [if_neg hany, Bool.eq_false_of_not_eq_true hany]
    simp only [Option.getD_some, forall_const]
    by_cases hid : t.eventId = 0
    · rw [if_pos hid]
      exact ⟨fun _ => .inl hid, fun _ _ => by simp [Table.schedule]⟩
    · rw [if_neg hid]
      refine ⟨fun hlive => .inr (hlive (by simp)), fun hstart _ => ?_⟩
      exact hstart.resolve_left hid

theorem Table.live_pass (t : Table) (visit : GlobalEvent → Visit) (id : ℕ) (now : ℤ) (delay : ℤ → ℤ) :
    (t.pass visit id now delay).Live := by
  rw [Table.pass]
  split
  · rename_i hnone
    rw [nextScheduledTime, List.min?_eq_none_iff, List.map_eq_nil_iff, List.filter_eq_nil_iff] at hnone
    intro hmap
    refine absurd (List.filterMap_eq_nil_iff.mpr fun v hv => ?_) hmap
    exact Option.not_isSome_iff_eq_none.mp (hnone v hv)
  · intro _
    simp [Table.schedule]

theorem Table.live_clear {t : Table} (h : t.Live) (fromLua caught : Bool) :
    (t.clear fromLua caught).Live ↔ t.Spares fromLua caught := by
  have hmap : t.map.filter (·.fromLua ≠ fromLua) ≠ [] ↔ ∃ e ∈ t.map, e.fromLua ≠ fromLua := by
    simp [List.filter_eq_nil_iff]
  rw [Table.Live, Table.clear, Table.Spares]
  simp only
  rw [hmap]
  cases caught with
  | true => simp [List.filter_eq_nil_iff]
  | false =>
    refine ⟨fun _ => nofun, fun _ hex => h ?_⟩
    obtain ⟨e, he, -⟩ := hex
    exact List.ne_nil_of_mem he

theorem live_step {s : GlobalEvents} (h : s.Live) (ev : Event) : (step s ev).Live ↔ Continues s ev := by
  cases ev with
  | register name fromLua timer interval nextExecution now =>
    rw [step, GlobalEvents.register, Continues]
    cases timer with
    | true =>
      have hreg := Table.live_register h.2
        { name, fromLua, timer := true, interval, nextExecution, ref := s.registered.length }
        (s.lastEventId + 1) now
      simp only [if_true]
      rw [← hreg]
      split
      · rename_i hnone
        rw [hnone]
        exact and_iff_right h.1
      · rename_i timers hsome
        rw [hsome]
        exact and_iff_right h.1
    | false =>
      have hreg := Table.live_register h.1
        { name, fromLua, timer := false, interval, nextExecution, ref := s.registered.length }
        (s.lastEventId + 1) now
      simp only [Bool.false_eq_true, if_false]
      rw [← hreg]
      split
      · rename_i hnone
        rw [hnone]
        exact and_iff_left h.2
      · rename_i thinks hsome
        rw [hsome]
        exact and_iff_left h.2
  | think id now =>
    rw [step]
    refine iff_of_true ?_ trivial
    split
    · exact ⟨Table.live_pass _ _ _ _ _, h.2⟩
    · exact h
  | timer id now succeeds =>
    rw [step]
    refine iff_of_true ?_ trivial
    split
    · exact ⟨h.1, Table.live_pass _ _ _ _ _⟩
    · exact h
  | clear fromLua caughtThink caughtTimer =>
    rw [step, Continues]
    exact and_congr (Table.live_clear h.1 fromLua caughtThink) (Table.live_clear h.2 fromLua caughtTimer)

/-- The events go on being called exactly as long as nothing is registered after the calls
have ended, and no call is stopped on which others than the cleared events depend. -/
theorem events_are_called_iff (evs : List Event) :
    (∀ pre, pre <+: evs → (run step {} pre).Live) ↔ Along step Continues {} evs := by
  have hinit : GlobalEvents.Live {} := ⟨fun h => absurd rfl h, fun h => absurd rfl h⟩
  exact @inv_reached_iff _ _ step Continues GlobalEvents.Live (fun _ ev h => live_step h ev) _ evs hinit

end ForgottenServer.Events
