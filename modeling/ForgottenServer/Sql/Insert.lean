import Mathlib.Data.List.Basic

/-! # Batched INSERT statements

`DBInsert` collects rows and flushes them as one statement when its length
counter passes the server's packet limit. The counter adds up the base query
and the row texts only: the brackets and commas around the rows are not in it,
and after a flush it starts again without the row that caused the flush. The
rows themselves are never lost; the packet limit is met exactly when the
uncounted bytes still fit (`RoomFor`). -/
namespace ForgottenServer.Sql.Insert

/-- A `std::string`: bytes, so that its length is what goes over the wire. -/
abbrev Bytes := List UInt8

/-- The connection as `DBInsert` uses it: its limit, the server's answer to a
statement, and the statements the server has executed so far. -/
structure Database where
  maxPacketSize : Nat
  accepts : Bytes → Bool
  executed : List Bytes

def Database.executeQuery (db : Database) (query : Bytes) : Bool × Database :=
  if db.accepts query then (true, { db with executed := db.executed ++ [query] }) else (false, db)

structure DBInsert where
  query : Bytes
  values : Bytes
  length : Nat

/-- `DBInsert::DBInsert`. -/
def DBInsert.new (query : Bytes) : DBInsert := ⟨query, [], query.length⟩

def bracketed (row : Bytes) : Bytes := 40 :: row ++ [41]

/-- `DBInsert::execute`. An empty buffer leaves the counter as it is. -/
def DBInsert.execute (ins : DBInsert) (db : Database) : Bool × Database × DBInsert :=
  if ins.values.isEmpty then (true, db, ins)
  else
    let (res, db) := db.executeQuery (ins.query ++ ins.values)
    (res, db, { ins with values := [], length := ins.query.length })

/-- The end of `DBInsert::addRow`: the row goes to the buffer, after a comma
unless it is the first one. -/
def DBInsert.append (ins : DBInsert) (row : Bytes) : DBInsert :=
  if ins.values.isEmpty then { ins with values := bracketed row }
  else { ins with values := ins.values ++ 44 :: bracketed row }

/-- `DBInsert::addRow`. -/
def DBInsert.addRow (ins : DBInsert) (db : Database) (row : Bytes) : Bool × Database × DBInsert :=
  let ins := { ins with length := ins.length + row.length }
  if db.maxPacketSize < ins.length then
    match ins.execute db with
    | (false, db, ins) => (false, db, ins)
    | (true, db, ins) => (true, db, ins.append row)
  else (true, db, ins.append row)

/-- `addRow` for each row and `execute` at the end; as in every caller, the
first failure ends it. -/
def DBInsert.addRows (ins : DBInsert) (db : Database) : List Bytes → Bool × Database × DBInsert
  | [] => ins.execute db
  | row :: rows =>
    match ins.addRow db row with
    | (false, db, ins) => (false, db, ins)
    | (true, db, ins) => ins.addRows db rows

/-! ## What the buffer holds -/

/-- The text of a list of rows, as `append` builds it. -/
def values : List Bytes → Bytes
  | [] => []
  | row :: rows => bracketed row ++ rows.flatMap fun r => 44 :: bracketed r

/-- The statement that inserts the rows `rows`. -/
def statement (query : Bytes) (rows : List Bytes) : Bytes := query ++ values rows

@[simp] theorem bracketed_length (row : Bytes) : (bracketed row).length = row.length + 2 := by
  simp [bracketed]

@[simp] theorem statement_single_length (query row : Bytes) :
    (statement query [row]).length = query.length + row.length + 2 := by
  simp [statement, values]; omega

theorem values_isEmpty {rows : List Bytes} : (values rows).isEmpty = rows.isEmpty := by
  cases rows <;> simp [values, bracketed]

theorem values_snoc {rows : List Bytes} (h : rows ≠ []) (row : Bytes) :
    values (rows ++ [row]) = values rows ++ 44 :: bracketed row := by
  cases rows with
  | nil => exact absurd rfl h
  | cons r rs => simp [values]

theorem statement_snoc_length {rows : List Bytes} (h : rows ≠ []) (query row : Bytes) :
    (statement query (rows ++ [row])).length = (statement query rows).length + row.length + 3 := by
  simp [statement, values_snoc h]; omega

/-- The buffer `ins` holds the rows `pending`. -/
structure Holds (ins : DBInsert) (query : Bytes) (pending : List Bytes) : Prop where
  query_eq : ins.query = query
  values_eq : ins.values = values pending

theorem Holds.append {ins : DBInsert} {query : Bytes} {pending : List Bytes} (h : Holds ins query pending)
    (row : Bytes) : Holds (ins.append row) query (pending ++ [row]) := by
  unfold DBInsert.append
  by_cases hp : pending = []
  · subst hp
    simpa [h.values_eq, values] using ⟨h.query_eq, by simp [values]⟩
  · have : ins.values.isEmpty = false := by rw [h.values_eq, values_isEmpty]; simpa using hp
    rw [if_neg (by simp [this])]
    exact ⟨h.query_eq, by rw [h.values_eq, values_snoc hp]⟩

theorem append_length (ins : DBInsert) (row : Bytes) : (ins.append row).length = ins.length := by
  unfold DBInsert.append; split <;> rfl

theorem Holds.execute {ins : DBInsert} {query : Bytes} {pending : List Bytes} {db : Database}
    (h : Holds ins query pending) (hp : pending ≠ []) (hacc : ∀ s, db.accepts s = true) :
    ins.execute db = (true, { db with executed := db.executed ++ [statement query pending] },
      ⟨query, [], query.length⟩) := by
  have hne : ins.values.isEmpty = false := by rw [h.values_eq, values_isEmpty]; simpa using hp
  unfold DBInsert.execute
  rw [if_neg (by simp [hne])]
  simp [Database.executeQuery, hacc, statement, h.query_eq, h.values_eq]

/-! ## Whole runs -/

/-- Whether each of the rows still to come (given by their lengths) fits where
the code puts it: `counted` is the code's counter, `used` the real length of
the pending statement. A row that pushes the counter over the limit starts a
new statement of its own; any other one is joined to the pending statement
with three bytes of comma and brackets. -/
def Room (max base : Nat) : Nat → Nat → List Nat → Prop
  | _, _, [] => True
  | counted, used, n :: ns =>
    if max < counted + n then Room max base base (base + n + 2) ns
    else used + n + 3 ≤ max ∧ Room max base (counted + n) (used + n + 3) ns

/-- `Room` from an empty buffer. -/
def RoomFor (max : Nat) (query : Bytes) : List Bytes → Prop
  | [] => True
  | row :: rows => Room max query.length (query.length + row.length) (query.length + row.length + 2)
      (rows.map List.length)

theorem Holds.addRow_flush {ins : DBInsert} {query : Bytes} {pending : List Bytes} {db : Database}
    (h : Holds ins query pending) (hp : pending ≠ []) (hacc : ∀ s, db.accepts s = true)
    {row : Bytes} (hover : db.maxPacketSize < ins.length + row.length) :
    ∃ ins', ins.addRow db row = (true, { db with executed := db.executed ++ [statement query pending] }, ins') ∧
      Holds ins' query [row] ∧ ins'.length = query.length := by
  have hlong : Holds { ins with length := ins.length + row.length } query pending :=
    ⟨h.query_eq, h.values_eq⟩
  have hempty : Holds ⟨query, [], query.length⟩ query [] := ⟨rfl, rfl⟩
  refine ⟨DBInsert.append ⟨query, [], query.length⟩ row, ?_, hempty.append row, append_length _ _⟩
  unfold DBInsert.addRow
  rw [if_pos hover, hlong.execute hp hacc]

theorem Holds.addRow_join {ins : DBInsert} {query : Bytes} {pending : List Bytes} (h : Holds ins query pending)
    (db : Database) (row : Bytes) (hin : ¬ db.maxPacketSize < ins.length + row.length) :
    ∃ ins', ins.addRow db row = (true, db, ins') ∧ Holds ins' query (pending ++ [row]) ∧
      ins'.length = ins.length + row.length := by
  have hlong : Holds { ins with length := ins.length + row.length } query pending :=
    ⟨h.query_eq, h.values_eq⟩
  refine ⟨DBInsert.append { ins with length := ins.length + row.length } row, ?_,
    hlong.append row, append_length _ _⟩
  unfold DBInsert.addRow
  rw [if_neg hin]

/-- The rows leave in order, in non-empty batches; all batches meet the limit
iff the pending one does and the rows to come find room. -/
theorem Holds.addRows {query : Bytes} (rows : List Bytes) :
    ∀ {ins : DBInsert} {pending : List Bytes}, Holds ins query pending → pending ≠ [] →
      ∀ db : Database, (∀ s, db.accepts s = true) →
      (∀ row ∈ rows, query.length + row.length + 2 ≤ db.maxPacketSize) →
      ∃ batches : List (List Bytes), (ins.addRows db rows).1 = true ∧
        (ins.addRows db rows).2.1.executed = db.executed ++ batches.map (statement query) ∧
        batches.flatten = pending ++ rows ∧
        ((∀ b ∈ batches, (statement query b).length ≤ db.maxPacketSize) ↔
          (statement query pending).length ≤ db.maxPacketSize ∧
          Room db.maxPacketSize query.length ins.length (statement query pending).length (rows.map List.length)) := by
  induction rows with
  | nil =>
    intro ins pending h hp db hacc _
    refine ⟨[pending], ?_, ?_, by simp, by simp [Room]⟩ <;>
      simp [DBInsert.addRows, h.execute hp hacc]
  | cons row rows ih =>
    intro ins pending h hp db hacc hfit
    have hrow := hfit row (by simp)
    by_cases hover : db.maxPacketSize < ins.length + row.length
    · obtain ⟨ins', hadd, h', hl'⟩ := h.addRow_flush hp hacc hover
      obtain ⟨batches, hok, hex, hflat, hiff⟩ := ih h' (by simp)
        { db with executed := db.executed ++ [statement query pending] } hacc
        (fun r hr => hfit r (by simp [hr]))
      refine ⟨pending :: batches, ?_, ?_, by simp [hflat], ?_⟩
      · simp only [DBInsert.addRows, hadd]; exact hok
      · simp only [DBInsert.addRows, hadd, hex]; simp
      · rw [hl', statement_single_length] at hiff
        simp only [List.mem_cons, forall_eq_or_imp, List.map_cons, Room, if_pos hover, hiff]
        exact ⟨fun ⟨ha, _, hb⟩ => ⟨ha, hb⟩, fun ⟨ha, hb⟩ => ⟨ha, hrow, hb⟩⟩
    · obtain ⟨ins', hadd, h', hl'⟩ := h.addRow_join db row hover
      obtain ⟨batches, hok, hex, hflat, hiff⟩ := ih h' (by simp) db hacc
        (fun r hr => hfit r (by simp [hr]))
      refine ⟨batches, ?_, ?_, by simp [hflat], ?_⟩
      · simp only [DBInsert.addRows, hadd]; exact hok
      · simp only [DBInsert.addRows, hadd, hex]
      · rw [hl', statement_snoc_length hp] at hiff
        simp only [List.map_cons, Room, if_neg hover, hiff]
        exact ⟨fun ⟨ha, hb⟩ => ⟨by omega, ha, hb⟩, fun ⟨_, ha, hb⟩ => ⟨ha, hb⟩⟩

/-- The result of adding `rows` to a fresh `DBInsert` and executing it, and the
statements executed on the way. -/
def insertAll (max : Nat) (accepts : Bytes → Bool) (query : Bytes) (rows : List Bytes) : Bool × List Bytes :=
  let (res, db, _) := (DBInsert.new query).addRows ⟨max, accepts, []⟩ rows
  (res, db.executed)

/-- `stmts` insert exactly `rows`, in order. -/
def Carries (query : Bytes) (stmts rows : List Bytes) : Prop :=
  ∃ batches : List (List Bytes), stmts = batches.map (statement query) ∧ batches.flatten = rows

/-- With every statement succeeding no row is lost, duplicated or reordered. -/
theorem insertAll_batches {max : Nat} {accepts : Bytes → Bool} {query : Bytes} {rows : List Bytes}
    (hacc : ∀ s, accepts s = true) (hfit : ∀ row ∈ rows, (statement query [row]).length ≤ max) :
    ∃ batches : List (List Bytes), (insertAll max accepts query rows).1 = true ∧
      (insertAll max accepts query rows).2 = batches.map (statement query) ∧
      batches.flatten = rows ∧
      ((∀ b ∈ batches, (statement query b).length ≤ max) ↔ RoomFor max query rows) := by
  cases rows with
  | nil => exact ⟨[], rfl, rfl, rfl, by simp [RoomFor]⟩
  | cons row rows =>
    simp only [statement_single_length] at hfit
    have hrow := hfit row (by simp)
    have hnew : Holds (DBInsert.new query) query [] := ⟨rfl, rfl⟩
    obtain ⟨ins', hadd, h', hl'⟩ := hnew.addRow_join ⟨max, accepts, []⟩ row (by simp only [DBInsert.new]; omega)
    obtain ⟨batches, hok, hex, hflat, hiff⟩ := h'.addRows rows (by simp)
      ⟨max, accepts, []⟩ hacc (fun r hr => hfit r (by simp [hr]))
    refine ⟨batches, ?_, ?_, by simpa using hflat, ?_⟩
    · simp only [insertAll, DBInsert.addRows, hadd]; exact hok
    · simp only [insertAll, DBInsert.addRows, hadd, hex]; simp
    · rw [hl', List.nil_append, statement_single_length] at hiff
      rw [hiff]
      exact ⟨fun h => h.2, fun h => ⟨hrow, h⟩⟩

/-- The batches carry the rows within the packet limit exactly when every row
finds room. -/
theorem insertAll_within_limit_iff (max : Nat) (accepts : Bytes → Bool) (query : Bytes) (rows : List Bytes)
    (hacc : ∀ s, accepts s = true) (hfit : ∀ row ∈ rows, (statement query [row]).length ≤ max) :
    ((insertAll max accepts query rows).1 = true ∧ Carries query (insertAll max accepts query rows).2 rows ∧
      ∀ s ∈ (insertAll max accepts query rows).2, s.length ≤ max) ↔
    RoomFor max query rows := by
  obtain ⟨batches, hok, hex, hflat, hiff⟩ := insertAll_batches hacc hfit
  rw [← hiff, hok, hex]
  constructor
  · rintro ⟨-, -, hall⟩ b hb
    exact hall _ (List.mem_map_of_mem hb)
  · intro hall
    refine ⟨rfl, ⟨batches, rfl, hflat⟩, ?_⟩
    simpa using hall

/-- Two rows with room: `I(a),(b)` is nine bytes long and the limit is nine. -/
theorem insertAll_within_limit_two_rows : (insertAll 9 (fun _ => true) [73, 32] [[97], [98]]).1 = true ∧
      Carries [73, 32] (insertAll 9 (fun _ => true) [73, 32] [[97], [98]]).2 [[97], [98]] ∧
      ∀ s ∈ (insertAll 9 (fun _ => true) [73, 32] [[97], [98]]).2, s.length ≤ 9 :=
  (insertAll_within_limit_iff 9 (fun _ => true) [73, 32] [[97], [98]] (fun _ => rfl)
    (by decide)).mpr (by simp [RoomFor, Room])

/-- The same rows with a limit of eight: each statement of one row has five
bytes, the counter says four, and the statement that is sent has nine. -/
theorem insertAll_over_limit : (∀ row ∈ [[97], [98]], (statement [73, 32] [row]).length ≤ 8) ∧
      ∃ s ∈ (insertAll 8 (fun _ => true) [73, 32] [[97], [98]]).2, 8 < s.length := by
  decide

end ForgottenServer.Sql.Insert
