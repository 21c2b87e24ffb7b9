import ForgottenServer.Sql.Insert

/-! # Transactions

A `DBTransaction` holds the lock of the database from its begin to its end. Each
statement takes the lock once more. The server undoes what is not committed. -/
namespace ForgottenServer.Sql.Transaction
open ForgottenServer.Sql.Insert (Bytes)

inductive Statement
  | startTransaction
  | commit
  | rollback
  | select (text : Bytes)
  | query (text : Bytes)
  deriving DecidableEq

/-- The connection is lost so often before the server answers. -/
structure Answer where
  lost : ℕ := 0
  success : Bool := true

structure Issued where
  statement : Statement
  success : Bool
  /-- it was issued in a started transaction -/
  started : Bool

/-- The connection, and what the server stores. -/
structure Database (ρ : Type*) where
  rows : ρ
  /-- the rows as a started transaction has made them -/
  transaction : Option ρ := none
  /-- how often `databaseLock` was acquired and released -/
  acquired : ℕ := 0
  released : ℕ := 0
  retryQueries : Bool := true
  issued : List Issued := []

/-- The server: what a statement does to the rows, and how it answers each statement. -/
structure DbServer (ρ : Type*) where
  effect : Bytes → ρ → ρ
  answer : ℕ → Answer

/-- The loop around `mysql_real_query`. -/
def attempts (retryQueries : Bool) : ℕ → Bool → Bool
  | 0, success => success
  | lost + 1, success => if retryQueries then attempts retryQueries lost success else false

variable {ρ : Type*} (server : DbServer ρ)

namespace Database

/-- What the server does. Rows that are not committed are gone with a lost connection. -/
def serve (db : Database ρ) (statement : Statement) (success lost : Bool) : Database ρ :=
  match statement with
  | .startTransaction => if success then { db with transaction := some db.rows } else db
  | .commit =>
    if success then { db with rows := db.transaction.getD db.rows, transaction := none }
    else { db with transaction := none }
  | .rollback => { db with transaction := none }
  | .select _ => if lost then { db with transaction := db.transaction.map fun _ => db.rows } else db
  | .query text =>
    if lost then { db with transaction := db.transaction.map fun _ => db.rows }
    else if success then
      match db.transaction with
      | none => { db with rows := server.effect text db.rows }
      | some rows => { db with transaction := some (server.effect text rows) }
    else db

/-- `databaseLock.lock()` -/
def lock (db : Database ρ) : Database ρ := { db with acquired := db.acquired + 1 }

/-- `databaseLock.unlock()` -/
def unlock (db : Database ρ) : Database ρ := { db with released := db.released + 1 }

/-- `executeQuery`, and for a `SELECT` `storeQuery`: the lock is held for one statement. -/
def execute (db : Database ρ) (statement : Statement) : Bool × Database ρ :=
  let answer := server.answer db.issued.length
  let success := attempts db.retryQueries answer.lost answer.success
  let lost := !db.retryQueries && answer.lost ≠ 0
  let served := db.lock.serve server statement success lost
  (success, { served.unlock with issued := db.issued ++ [⟨statement, success, db.transaction.isSome⟩] })

def beginTransaction (db : Database ρ) : Bool × Database ρ :=
  let (result, db) := db.lock.execute server .startTransaction
  let db := { db with retryQueries := !result }
  if !result then (result, db.unlock) else (result, db)

def rollback (db : Database ρ) : Bool × Database ρ :=
  let (result, db) := db.execute server .rollback
  let db := { db with retryQueries := true }
  (result, db.unlock)

def commit (db : Database ρ) : Bool × Database ρ :=
  let (result, db) := db.execute server .commit
  let db := { db with retryQueries := true }
  (result, db.unlock)

end Database

/-- `TransactionStates_t`. -/
inductive TransactionState
  | noStart | start | commit

namespace TransactionState

def begin (_ : TransactionState) (db : Database ρ) : Bool × TransactionState × Database ρ :=
  let (result, db) := db.beginTransaction server
  (result, .start, db)

def commits (state : TransactionState) (db : Database ρ) : Bool × TransactionState × Database ρ :=
  match state with
  | .start =>
    let (result, db) := db.commit server
    (result, .commit, db)
  | state => (false, state, db)

/-- The destructor. -/
def destroy (state : TransactionState) (db : Database ρ) : Database ρ :=
  match state with
  | .start => (db.rollback server).2
  | _ => db

end TransactionState

/-- What a function does between the begin and the commit: it issues statements, goes
by their outcomes, and gives up or not. -/
inductive Body
  | result (success : Bool)
  | executeQuery (text : Bytes) (next : Bool → Body)
  | storeQuery (text : Bytes) (next : Bool → Body)

def Body.run : Body → Database ρ → Bool × Database ρ
  | .result success, db => (success, db)
  | .executeQuery text next, db =>
    let (success, db) := db.execute server (.query text)
    (next success).run db
  | .storeQuery text next, db =>
    let (success, db) := db.execute server (.select text)
    (next success).run db

/-- A function with a `DBTransaction`. -/
def transact (db : Database ρ) (body : Body) : Bool × Database ρ :=
  let (started, state, db) := TransactionState.noStart.begin server db
  if !started then (false, state.destroy server db)
  else
    let (success, db) := body.run server db
    if !success then (false, state.destroy server db)
    else
      let (committed, state, db) := state.commits server db
      (committed, state.destroy server db)

/-! ## Statements -/

variable {server} {db : Database ρ} {statement : Statement}

@[simp] theorem attempts_true (lost : ℕ) (success : Bool) : attempts true lost success = success := by
  induction lost with
  | zero => rfl
  | succ lost ih => rw [attempts, if_pos rfl, ih]

/-- The server does not touch the lock. -/
structure SameLock (db db' : Database ρ) : Prop where
  acquired : db'.acquired = db.acquired
  released : db'.released = db.released
  retryQueries : db'.retryQueries = db.retryQueries

theorem serve_sameLock (db : Database ρ) (statement : Statement) (success lost : Bool) :
    SameLock db (db.serve server statement success lost) := by
  unfold Database.serve
  split <;> repeat' split
  all_goals exact ⟨rfl, rfl, rfl⟩

theorem execute_issued (db : Database ρ) (statement : Statement) : (db.execute server statement).2.issued =
      db.issued ++ [⟨statement, (db.execute server statement).1, db.transaction.isSome⟩] := rfl

theorem execute_acquired (db : Database ρ) (statement : Statement) :
    (db.execute server statement).2.acquired = db.acquired + 1 :=
      (serve_sameLock db.lock ..).acquired

theorem execute_released (db : Database ρ) (statement : Statement) :
    (db.execute server statement).2.released = db.released + 1 :=
  congrArg (· + 1) (serve_sameLock db.lock ..).released

theorem execute_retryQueries (db : Database ρ) (statement : Statement) :
    (db.execute server statement).2.retryQueries = db.retryQueries :=
      (serve_sameLock db.lock ..).retryQueries

/-! ## Inside a transaction -/

/-- A `ROLLBACK` was only issued in a started transaction. -/
def RollsBackInside (db : Database ρ) : Prop :=
  ∀ i ∈ db.issued, i.statement = .rollback → i.started = true

def AllSucceed (db : Database ρ) : Prop := ∀ i ∈ db.issued, i.success = true

/-- The lock is free, and no transaction is started. -/
structure Idle (db : Database ρ) : Prop where
  balanced : db.acquired = db.released
  retryQueries : db.retryQueries = true
  inside : RollsBackInside db

/-- The lock is held once by a started transaction, which began with `rows`. -/
structure Inside (rows : ρ) (db : Database ρ) : Prop where
  held : db.acquired = db.released + 1
  started : db.transaction.isSome = true
  rows : db.rows = rows
  inside : RollsBackInside db

variable {rows : ρ}

theorem RollsBackInside.execute (h : RollsBackInside db)
    (hstatement : statement = .rollback → db.transaction.isSome = true) :
    RollsBackInside (db.execute server statement).2 := by
  intro i hi
  rw [execute_issued] at hi
  obtain hi | hi := List.mem_append.mp hi
  · exact h i hi
  · obtain rfl := List.mem_singleton.mp hi
    exact hstatement

theorem AllSucceed.execute (h : AllSucceed db) (hsuccess : (db.execute server statement).1 = true) :
    AllSucceed (db.execute server statement).2 := by
  intro i hi
  rw [execute_issued] at hi
  obtain hi | hi := List.mem_append.mp hi
  · exact h i hi
  · obtain rfl := List.mem_singleton.mp hi
    exact hsuccess

theorem Inside.execute (h : Inside rows db) (hstatement : ∃ text, statement = .query text ∨ statement = .select text) :
    Inside rows (db.execute server statement).2 := by
  obtain ⟨open', hopen⟩ := Option.isSome_iff_exists.mp h.started
  have hserve : ∀ success lost, (db.lock.serve server statement success lost).transaction.isSome = true ∧
      (db.lock.serve server statement success lost).rows = rows := by
    intro success lost
    obtain ⟨text, rfl | rfl⟩ := hstatement
    · simp only [Database.serve, Database.lock, hopen]
      split
      · exact ⟨rfl, h.rows⟩
      · split
        · exact ⟨rfl, h.rows⟩
        · exact ⟨rfl, h.rows⟩
    · simp only [Database.serve, Database.lock, hopen]
      split
      · exact ⟨rfl, h.rows⟩
      · exact ⟨rfl, h.rows⟩
  refine ⟨?_, (hserve _ _).1, (hserve _ _).2, h.inside.execute fun _ => h.started⟩
  rw [execute_acquired, execute_released, h.held]

theorem Inside.run (server : DbServer ρ) (h : Inside rows db) (body : Body) : Inside rows (body.run server db).2 := by
  induction body generalizing db with
  | result success => exact h
  | executeQuery text next ih => exact ih _ (h.execute ⟨text, .inl rfl⟩)
  | storeQuery text next ih => exact ih _ (h.execute ⟨text, .inr rfl⟩)

theorem Inside.rollback (server : DbServer ρ) (h : Inside rows db) :
    Idle (db.rollback server).2 ∧ (db.rollback server).2.rows = rows := by
  have hinside : RollsBackInside (db.execute server .rollback).2 :=
    h.inside.execute fun _ => h.started
  refine ⟨⟨?_, rfl, hinside⟩, h.rows⟩
  change (db.execute server .rollback).2.acquired = (db.execute server .rollback).2.released + 1
  rw [execute_acquired, execute_released, h.held]

theorem Inside.commit (server : DbServer ρ) (h : Inside rows db) :
    Idle (db.commit server).2 ∧ ((db.commit server).1 = false → (db.commit server).2.rows = rows) ∧
      ((db.commit server).1 = true → AllSucceed db → AllSucceed (db.commit server).2) := by
  have hinside : RollsBackInside (db.execute server .commit).2 :=
    h.inside.execute fun _ => h.started
  refine ⟨⟨?_, rfl, hinside⟩, fun hfail => ?_, fun hsuccess hall => ?_⟩
  · change (db.execute server .commit).2.acquired = (db.execute server .commit).2.released + 1
    rw [execute_acquired, execute_released, h.held]
  · change (db.execute server .commit).1 = false at hfail
    change (db.execute server .commit).2.rows = rows
    simp only [Database.execute, Database.serve] at hfail ⊢
    rw [if_neg (by simp [hfail])]
    exact h.rows
  · have hcommit : AllSucceed (db.execute server .commit).2 := hall.execute hsuccess
    exact hcommit

/-! ## Outside of a transaction -/

theorem idle_init (rows : ρ) : Idle ({ rows } : Database ρ) := ⟨rfl, rfl, by simp [RollsBackInside]⟩

theorem Idle.execute {db : Database ρ} {statement : Statement} (h : Idle db)
    (hstatement : statement ≠ .rollback) : Idle (db.execute server statement).2 := by
  refine ⟨?_, (execute_retryQueries db statement).trans h.retryQueries,
    h.inside.execute fun heq => absurd heq hstatement⟩
  rw [execute_acquired, execute_released, h.balanced]

theorem Idle.execute_success {db : Database ρ} (h : Idle db) (statement : Statement) :
    (db.execute server statement).1 = (server.answer db.issued.length).success := by
  simp only [Database.execute, h.retryQueries, attempts_true]

theorem Idle.query_fails {db : Database ρ} {query : Bytes} (h : Idle db)
    (hfails : (db.execute server (.query query)).1 = false) : (db.execute server (.query query)).2.rows = db.rows := by
  simp only [Database.execute, Database.serve, h.retryQueries, Bool.not_true, Bool.false_and,
    Bool.false_eq_true, if_false] at hfails ⊢
  rw [if_neg (by simp [hfails])]
  rfl

theorem Idle.select_rows {db : Database ρ} {query : Bytes} (h : Idle db) :
    (db.execute server (.select query)).2.rows = db.rows := by
  simp only [Database.execute, Database.serve, h.retryQueries, Bool.not_true, Bool.false_and,
    Bool.false_eq_true, if_false]
  rfl

/-! ## The begin -/

/-- The server grants the next statement. -/
def Grants (server : DbServer ρ) (db : Database ρ) : Prop :=
  (server.answer db.issued.length).success = true

theorem execute_lock_success (hretry : db.retryQueries = true) :
    (db.lock.execute server .startTransaction).1 = (server.answer db.issued.length).success := by
  simp only [Database.lock, Database.execute, hretry, attempts_true]

theorem beginTransaction_granted (hretry : db.retryQueries = true) (hgrants : Grants server db) :
    db.beginTransaction server =
      (true, { (db.lock.execute server .startTransaction).2 with retryQueries := false }) := by
  have hsuccess : (db.lock.execute server .startTransaction).1 = true :=
    (execute_lock_success hretry).trans hgrants
  rw [Database.beginTransaction]
  cases hexecute : db.lock.execute server .startTransaction with
  | mk result db' =>
    rw [hexecute] at hsuccess
    obtain rfl : result = true := hsuccess
    rfl

theorem beginTransaction_refused (hretry : db.retryQueries = true) (hgrants : ¬ Grants server db) :
    db.beginTransaction server =
      (false, Database.unlock { (db.lock.execute server .startTransaction).2 with retryQueries := true }) := by
  have hsuccess : (db.lock.execute server .startTransaction).1 = false :=
    (execute_lock_success hretry).trans (Bool.not_eq_true _ ▸ hgrants)
  rw [Database.beginTransaction]
  cases hexecute : db.lock.execute server .startTransaction with
  | mk result db' =>
    rw [hexecute] at hsuccess
    obtain rfl : result = false := hsuccess
    rfl

theorem Idle.begins (h : Idle db) (hgrants : Grants server db) : Inside db.rows (db.beginTransaction server).2 := by
  have hsuccess := (execute_lock_success h.retryQueries).trans hgrants
  have hinside : RollsBackInside db.lock := h.inside
  rw [beginTransaction_granted h.retryQueries hgrants]
  refine ⟨?_, ?_, ?_, hinside.execute fun hne => absurd hne (by decide)⟩
  · change (db.lock.execute server .startTransaction).2.acquired =
      (db.lock.execute server .startTransaction).2.released + 1
    rw [execute_acquired, execute_released, Database.lock, h.balanced]
  · simp only [Database.execute, Database.serve] at hsuccess ⊢
    rw [if_pos hsuccess]
    rfl
  · simp only [Database.execute, Database.serve] at hsuccess ⊢
    rw [if_pos hsuccess]
    rfl

/-! ## The whole transaction -/

/-- A body that says it succeeded has issued only statements that did. -/
def Strict (server : DbServer ρ) (body : Body) : Prop :=
  ∀ db, AllSucceed db → (body.run server db).1 = true → AllSucceed (body.run server db).2

theorem transact_granted (h : Idle db) (hgrants : Grants server db) (body : Body) : Idle (transact server db body).2 ∧
      ((transact server db body).1 = false → (transact server db body).2.rows = db.rows) ∧
      (Strict server body → AllSucceed db → (transact server db body).1 = true →
        AllSucceed (transact server db body).2) := by
  have hbegun := h.begins hgrants
  have hfirst : AllSucceed db → AllSucceed (db.beginTransaction server).2 := fun hall => by
    rw [beginTransaction_granted h.retryQueries hgrants]
    have hlock : AllSucceed db.lock := hall
    exact hlock.execute ((execute_lock_success h.retryQueries).trans hgrants)
  rw [transact, TransactionState.begin]
  rw [beginTransaction_granted h.retryQueries hgrants] at hbegun hfirst ⊢
  dsimp only at hbegun hfirst ⊢
  generalize ({ (db.lock.execute server .startTransaction).2 with retryQueries := false } : Database
    ρ) = begun
    at hbegun hfirst ⊢
  have hran := hbegun.run server body
  cases hrun : body.run server begun with
  | mk success db' =>
    rw [hrun] at hran
    cases success with
    | false =>
      obtain ⟨hidle, hrows⟩ := hran.rollback server
      exact ⟨hidle, fun _ => hrows, fun _ _ hno => absurd hno Bool.false_ne_true⟩
    | true =>
      obtain ⟨hidle, hrows, hall⟩ := hran.commit server
      refine ⟨hidle, hrows, fun hstrict hbefore hcommit => hall hcommit ?_⟩
      have hafter := hstrict begun (hfirst hbefore) (by rw [hrun])
      rw [hrun] at hafter
      exact hafter

/-- With a refused begin the destructor issues a `ROLLBACK` all the same, and gives a
lock back that is not held. -/
theorem transact_refused (h : Idle db) (hgrants : ¬ Grants server db) (body : Body) :
    (transact server db body).1 = false ∧ (transact server db body).2.rows = db.rows ∧
      (transact server db body).2.released = (transact server db body).2.acquired + 1 := by
  have hsuccess : (db.lock.execute server .startTransaction).1 = false :=
    (execute_lock_success h.retryQueries).trans (Bool.not_eq_true _ ▸ hgrants)
  have hrows : (db.lock.execute server .startTransaction).2.rows = db.rows := by
    simp only [Database.execute, Database.serve] at hsuccess ⊢
    rw [if_neg (by simp [hsuccess])]
    rfl
  rw [transact, TransactionState.begin, beginTransaction_refused h.retryQueries hgrants]
  refine ⟨rfl, hrows, ?_⟩
  change (Database.execute server _ .rollback).2.released + 1 = (Database.execute server _ .rollback).2.acquired + 1
  rw [execute_released, execute_acquired]
  change (db.lock.execute server .startTransaction).2.released + 1 + 1 + 1 =
    (db.lock.execute server .startTransaction).2.acquired + 1 + 1
  rw [execute_released, execute_acquired, Database.lock, h.balanced]

theorem transact_idle_iff (h : Idle db) (body : Body) : Idle (transact server db body).2 ↔ Grants server db := by
  by_cases hgrants : Grants server db
  · exact ⟨fun _ => hgrants, fun _ => (transact_granted h hgrants body).1⟩
  · refine ⟨fun hidle => ?_, fun hyes => absurd hyes hgrants⟩
    have hreleased := (transact_refused h hgrants body).2.2
    have hbalanced := hidle.balanced
    omega

end ForgottenServer.Sql.Transaction
