import ForgottenServer.Sql.Transaction

/-! # Saving a player

`IOLoginData::savePlayer` issues its statements in a transaction and gives up at the
first that fails. The texts of the rows are given. -/
namespace ForgottenServer.Save
open ForgottenServer.Sql.Insert ForgottenServer.Sql.Transaction

def text (s : String) : Bytes := s.toUTF8.toList

/-- The texts that are made of a player. -/
structure PlayerTexts where
  guid : ℕ
  /-- `lastlogin` and `lastip` only -/
  updateLogin : Bytes
  update : Bytes
  spells : List Bytes
  items : List Bytes
  hasVisitedDepot : Bool
  depotItems : List Bytes
  inboxItems : List Bytes
  storeInboxItems : List Bytes
  storage : List Bytes

/-- A statement whose failure ends the save. -/
def check (query : Bytes) (next : Body) : Body :=
  .executeQuery query fun success => if success then next else .result false

/-- `DBInsert::execute`, as a part of a body. -/
def insertExecute (ins : DBInsert) (next : DBInsert → Body) : Body :=
  if ins.values.isEmpty then next ins
  else check (ins.query ++ ins.values) (next { ins with values := [], length := ins.query.length })

/-- `DBInsert::addRow`, as a part of a body. -/
def insertRow (maxPacketSize : ℕ) (ins : DBInsert) (row : Bytes) (next : DBInsert → Body) : Body :=
  let ins := { ins with length := ins.length + row.length }
  if maxPacketSize < ins.length then insertExecute ins fun ins => next (ins.append row)
  else next (ins.append row)

/-- The rows are added, and the rest is sent: `saveItems`, and the loops over the spells
and the storage values. -/
def insertRows (maxPacketSize : ℕ) (next : Body) : DBInsert → List Bytes → Body
  | ins, [] => insertExecute ins fun _ => next
  | ins, row :: rows =>
    insertRow maxPacketSize ins row fun ins => insertRows maxPacketSize next ins rows

/-- The old rows of a table are deleted, and the new ones inserted. -/
def replaceRows (maxPacketSize : ℕ) (guid : ℕ) (table columns : String) (rows : List Bytes) (next : Body) : Body :=
  check (text ("DELETE FROM `" ++ table ++ "` WHERE `player_id` = " ++ toString guid)) (insertRows maxPacketSize next
      (DBInsert.new (text ("INSERT INTO `" ++ table ++ "` (" ++ columns ++ ") VALUES "))) rows)

def itemColumns : String := "`player_id`, `pid`, `sid`, `itemtype`, `count`, `attributes`"

/-- What `savePlayer` does in its transaction. -/
def playerBody (maxPacketSize : ℕ) (p : PlayerTexts) : Body :=
  let replace := replaceRows maxPacketSize p.guid
  check p.update <|
    replace "player_spells" "`player_id`, `name` " p.spells <|
    replace "player_items" itemColumns p.items <|
    (if p.hasVisitedDepot then replace "player_depotitems" itemColumns p.depotItems else id) <|
    replace "player_inboxitems" itemColumns p.inboxItems <|
    replace "player_storeinboxitems" itemColumns p.storeInboxItems <|
    replace "player_storage" "`player_id`, `key`, `value`" p.storage <|
    .result true

def selectSave (guid : ℕ) : Statement :=
  .select (text ("SELECT `save` FROM `players` WHERE `id` = " ++ toString guid))

/-- `savePlayer`, for the row that the server has of the player: its column `save`. -/
def savePlayer {ρ : Type*} (server : DbServer ρ) (maxPacketSize : ℕ) (row : Option ℕ)
    (p : PlayerTexts) (db : Database ρ) : Bool × Database ρ :=
  let (result, db) := db.execute server (selectSave p.guid)
  match if result then row else none with
  | none => (false, db)
  | some save =>
    if save = 0 then db.execute server (.query p.updateLogin)
    else transact server db (playerBody maxPacketSize p)

/-! ## The body gives up at the first failure -/

variable {ρ : Type*} {server : DbServer ρ} {next : Body}

theorem strict_result : Strict server (.result true) := fun _ hall _ => hall

theorem strict_check (query : Bytes) (h : Strict server next) : Strict server (check query next) := by
  intro db hall hsuccess
  rw [check, Body.run] at hsuccess ⊢
  have hnext : AllSucceed db → (db.execute server (.query query)).1 = true →
      AllSucceed (db.execute server (.query query)).2 := fun hall hone => hall.execute hone
  cases hexecute : db.execute server (.query query) with
  | mk success db' =>
    rw [hexecute] at hsuccess hnext
    cases success with
    | false => exact absurd hsuccess Bool.false_ne_true
    | true => exact h db' (hnext hall rfl) hsuccess

theorem strict_insertExecute (ins : DBInsert) {next : DBInsert → Body} (h : ∀ ins, Strict server (next ins)) :
    Strict server (insertExecute ins next) := by
  unfold insertExecute
  split
  · exact h ins
  · exact strict_check _ (h _)

theorem strict_insertRow (maxPacketSize : ℕ) (ins : DBInsert) (row : Bytes) {next : DBInsert → Body}
    (h : ∀ ins, Strict server (next ins)) : Strict server (insertRow maxPacketSize ins row next) := by
  unfold insertRow
  dsimp only
  split
  · exact strict_insertExecute _ fun ins => h _
  · exact h _

theorem strict_insertRows (maxPacketSize : ℕ) (h : Strict server next) (ins : DBInsert) (rows : List Bytes) :
    Strict server (insertRows maxPacketSize next ins rows) := by
  induction rows generalizing ins with
  | nil => exact strict_insertExecute ins fun _ => h
  | cons row rows ih => exact strict_insertRow maxPacketSize ins row ih

theorem strict_replaceRows (maxPacketSize guid : ℕ) (table columns : String) (rows : List Bytes)
    (h : Strict server next) : Strict server (replaceRows maxPacketSize guid table columns rows next) :=
  strict_check _ (strict_insertRows maxPacketSize h _ rows)

theorem strict_playerBody (maxPacketSize : ℕ) (p : PlayerTexts) : Strict server (playerBody maxPacketSize p) := by
  have hrest : Strict server (replaceRows maxPacketSize p.guid "player_inboxitems" itemColumns p.inboxItems
        (replaceRows maxPacketSize p.guid "player_storeinboxitems" itemColumns p.storeInboxItems
          (replaceRows maxPacketSize p.guid "player_storage" "`player_id`, `key`, `value`" p.storage
            (.result true)))) :=
    strict_replaceRows _ _ _ _ _ <| strict_replaceRows _ _ _ _ _ <|
      strict_replaceRows _ _ _ _ _ strict_result
  refine strict_check _ <| strict_replaceRows _ _ _ _ _ <| strict_replaceRows _ _ _ _ _ ?_
  cases p.hasVisitedDepot with
  | false => exact hrest
  | true => exact strict_replaceRows _ _ _ _ _ hrest

/-! ## Saving, whatever the server answers -/

/-- The lock is as it was, and all is saved or nothing. -/
structure Saved (rows : ρ) (r : Bool × Database ρ) : Prop where
  idle : Idle r.2
  all : r.1 = true → AllSucceed r.2
  nothing : r.1 = false → r.2.rows = rows

/-- The save comes to its transaction. -/
def Begins (server : DbServer ρ) (row : Option ℕ) : Prop :=
  (server.answer 0).success = true ∧ ∃ save ∈ row, save ≠ 0

theorem saved_iff (server : DbServer ρ) (rows : ρ) (maxPacketSize : ℕ) (row : Option ℕ) (p : PlayerTexts) :
    Saved rows (savePlayer server maxPacketSize row p { rows }) ↔
      (Begins server row → (server.answer 1).success = true) := by
  have hinit := idle_init rows
  have hall : AllSucceed ({ rows } : Database ρ) := by simp [AllSucceed]
  rw [savePlayer]
  have hidle : Idle (({ rows } : Database ρ).execute server (selectSave p.guid)).2 :=
    hinit.execute Statement.noConfusion
  have hrows : (({ rows } : Database ρ).execute server (selectSave p.guid)).2.rows = rows :=
    hinit.select_rows
  have hselect : (({ rows } : Database ρ).execute server (selectSave p.guid)).1 =
      (server.answer 0).success :=
    hinit.execute_success _
  have hnext : Grants server (({ rows } : Database ρ).execute server (selectSave p.guid)).2 ↔
      (server.answer 1).success = true := Iff.rfl
  have hselected : (({ rows } : Database ρ).execute server (selectSave p.guid)).1 = true →
      AllSucceed (({ rows } : Database ρ).execute server (selectSave p.guid)).2 :=
        fun hone => hall.execute hone
  generalize ({ rows } : Database ρ).execute server (selectSave p.guid) = r at *
  obtain ⟨result, db⟩ := r
  have hnothing : Saved rows (false, db) :=
    ⟨hidle, fun hno => absurd hno Bool.false_ne_true, fun _ => hrows⟩
  cases result with
  | false =>
    exact ⟨fun _ hbegins => absurd (hselect.trans hbegins.1) Bool.false_ne_true, fun _ => hnothing⟩
  | true =>
    cases row with
    | none => exact ⟨fun _ ⟨_, save, hsave, _⟩ => absurd hsave (by simp), fun _ => hnothing⟩
    | some save =>
      change Saved rows (if save = 0 then db.execute server (.query p.updateLogin)
        else transact server db (playerBody maxPacketSize p)) ↔ _
      split
      · rename_i hzero
        constructor
        · rintro - ⟨-, save', hsave, hpos⟩
          rw [← Option.some.inj hsave] at hpos
          exact absurd hzero hpos
        · refine fun _ => ⟨hidle.execute Statement.noConfusion,
            fun hone => (hselected rfl).execute hone, fun hno => ?_⟩
          exact (hidle.query_fails hno).trans hrows
      · rename_i hpos
        have hbegins : Begins server (some save) := ⟨hselect.symm, save, rfl, hpos⟩
        constructor
        · exact fun hsaved _ => hnext.mp ((transact_idle_iff hidle _).mp hsaved.idle)
        · intro hgrants
          obtain ⟨hafter, hno, hyes⟩ := transact_granted hidle (hnext.mpr (hgrants hbegins))
            (playerBody maxPacketSize p)
          refine ⟨hafter, hyes (strict_playerBody maxPacketSize p) (hselected rfl), fun hfails => ?_⟩
          exact (hno hfails).trans hrows

theorem transactions_balance_iff (server : DbServer ρ) (rows : ρ) :
    (∀ body, Idle (transact server { rows } body).2 ↔ (server.answer 0).success = true) ∧
      ∀ maxPacketSize row p, Saved rows (savePlayer server maxPacketSize row p { rows }) ↔
        (Begins server row → (server.answer 1).success = true) :=
  ⟨transact_idle_iff (idle_init rows), saved_iff server rows⟩

/-- `START TRANSACTION` fails for a player who is to be saved: the lock is given back
once more than it was taken, and the `ROLLBACK` has no transaction. -/
theorem refused_begin_unlocks_twice :
    let server : DbServer Unit := ⟨fun _ rows => rows, fun n => { success := n ≠ 1 }⟩
    let p : PlayerTexts := ⟨1, [], [], [], [], false, [], [], [], []⟩
    let r := savePlayer server 1048576 (some 1) p { rows := () }
    r.2.acquired = 4 ∧ r.2.released = 5 ∧ ¬ RollsBackInside r.2 ∧ ¬ Saved () r := by
  intro server p r
  have hacquired : r.2.acquired = 4 := by decide
  have hreleased : r.2.released = 5 := by decide
  refine ⟨hacquired, hreleased, fun hinside => ?_, fun hsaved => ?_⟩
  · have hrollback := hinside ⟨.rollback, true, false⟩ (@List.mem_of_getElem? _ r.2.issued 2 _ rfl)
    exact absurd (hrollback rfl) (by decide)
  · have hbalanced := hsaved.idle.balanced
    rw [hacquired, hreleased] at hbalanced
    exact absurd hbalanced (by decide)

end ForgottenServer.Save
