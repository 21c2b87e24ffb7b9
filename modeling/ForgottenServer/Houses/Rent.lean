import ForgottenServer.Lib.Run
import Mathlib.Algebra.Order.Group.Unbundled.Int
import Mathlib.Algebra.Ring.Nat
import Mathlib.Logic.Function.Basic

/-! # Rent

`payHouses` runs when the server starts. An owner who cannot pay is warned seven times and
then loses the house. -/
namespace ForgottenServer.Houses
open ForgottenServer.Lib.Run

inductive RentPeriod
  | daily | weekly | monthly | yearly | never
  deriving DecidableEq, Repr

namespace RentPeriod

def days : RentPeriod → ℤ
  | .daily => 1
  | .weekly => 7
  | .monthly => 30
  | .yearly => 365
  | .never => 0

/-- What a payment or a new owner adds to the time. -/
def seconds (period : RentPeriod) : ℤ := 24 * 60 * 60 * period.days

/-- The word in the letter. -/
def word : RentPeriod → String
  | .daily => "daily"
  | .weekly => "weekly"
  | .monthly => "monthly"
  | .yearly => "annual"
  | .never => ""

theorem seconds_nonneg (period : RentPeriod) : 0 ≤ period.seconds := by cases period <;> decide

end RentPeriod

/-- What the rent of a house depends on. -/
structure House where
  name : String := ""
  townId : ℕ := 0
  rent : ℕ := 0
  owner : ℕ := 0
  paidUntil : ℤ := 0
  rentWarnings : ℕ := 0
  isLoaded : Bool := false
  deriving DecidableEq, Repr

/-- The configured period, the towns there are, and the players that can be loaded. -/
structure Server where
  period : RentPeriod
  hasTown : ℕ → Bool
  loads : ℕ → Bool

variable (server : Server)

namespace House

/-- `setOwner`, where `named` says whether the database has a name for the owner. -/
def setOwner (house : House) (guid : ℕ) (named : Bool) (now : ℤ) : House :=
  if house.isLoaded && house.owner = guid then house
  else
    let paidUntil :=
      if house.owner ≠ 0 then house.paidUntil
      else if server.period = .never then 0 else now + server.period.seconds
    { house with
      isLoaded := true
      owner := if guid ≠ 0 && named then guid else 0
      paidUntil := paidUntil
      rentWarnings := 0 }

/-- The row that `saveHouseInfo` writes, read by `loadHouseInfo` into a house that the map file
has made. -/
def reload (house : House) (now : ℤ) : House :=
  let fresh := setOwner server { house with owner := 0, rentWarnings := 0, isLoaded := false } 0 false now
  { setOwner server fresh house.owner true now with
    paidUntil := house.paidUntil
    rentWarnings := house.rentWarnings }

end House

/-- What the owner hears of a run. -/
inductive Notice
  | none
  | letter (text : String)
  deriving DecidableEq

def letterText (house : House) (daysLeft : ℕ) : String :=
  "Warning! \nThe " ++ server.period.word ++ " rent of " ++ toString house.rent ++
    " gold for your house \"" ++ house.name ++ "\" is payable. Have it within " ++
    toString daysLeft ++ " days or you will lose this house."

/-- A house in the loop of a run, with the bank balance of its owner. -/
structure Visit where
  house : House
  balance : ℕ
  now : ℤ

/-- The body of the loop of `payHouses`: the house, the balance that is saved and a letter. -/
def payHouse (v : Visit) : House × ℕ × Notice :=
  if v.house.owner = 0 then (v.house, v.balance, .none)
  else if v.house.rent = 0 || v.now < v.house.paidUntil then (v.house, v.balance, .none)
  else if !server.hasTown v.house.townId then (v.house, v.balance, .none)
  else if !server.loads v.house.owner then (v.house.setOwner server 0 false v.now, v.balance, .none)
  else if v.house.rent ≤ v.balance then
    ({ v.house with paidUntil := v.now + server.period.seconds }, v.balance - v.house.rent, .none)
  else if v.house.rentWarnings < 7 then
    ({ v.house with rentWarnings := v.house.rentWarnings + 1 }, v.balance,
      .letter (letterText server v.house (7 - v.house.rentWarnings)))
  else (v.house.setOwner server 0 false v.now, v.balance, .none)

/-- The loop of `payHouses`, with the balances by owner. -/
def payLoop (now : ℤ) : List House → (ℕ → ℕ) → List House × (ℕ → ℕ)
  | [], bank => ([], bank)
  | house :: houses, bank =>
    let (house', balance, _) := payHouse server ⟨house, bank house.owner, now⟩
    let (houses', bank') := payLoop now houses (Function.update bank house.owner balance)
    (house' :: houses', bank')

structure State where
  houses : List House
  bank : ℕ → ℕ

def payHouses (s : State) (now : ℤ) : State :=
  if server.period = .never then s
  else
    let (houses, bank) := payLoop server now s.houses s.bank
    ⟨houses, bank⟩

/-- What happens to houses and balances: a run, any change of the balances, and the server
going down and coming up again. -/
inductive RentEvent
  | payHouses (now : ℤ)
  | balances (bank : ℕ → ℕ)
  | restart (now : ℤ)

def rentStep (s : State) : RentEvent → State
  | .payHouses now => payHouses server s now
  | .balances bank => { s with bank := bank }
  | .restart now => { s with houses := s.houses.map fun house => house.reload server now }

/-! ## What should happen -/

def Visit.due (v : Visit) : Bool :=
  v.house.owner ≠ 0 && v.house.rent ≠ 0 && v.house.paidUntil ≤ v.now && server.hasTown v.house.townId

/-- It is due and there is enough for it. -/
def Visit.pays (v : Visit) : Bool := v.due server && v.house.rent ≤ v.balance

/-- How many of the due runs at the end, one after the other, found too little. -/
def shortRuns (vs : List Visit) : ℕ :=
  ((vs.filter (Visit.due server)).reverse.takeWhile fun v => v.balance < v.house.rent).length

/-- The visits of a run, in their order, each with the balance it finds. -/
def visitsOf (now : ℤ) : List House → (ℕ → ℕ) → List Visit
  | [], _ => []
  | house :: houses, bank =>
    let v : Visit := ⟨house, bank house.owner, now⟩
    v :: visitsOf now houses (Function.update bank house.owner (payHouse server v).2.1)

def visits (s : State) (now : ℤ) : List Visit :=
  if server.period = .never then [] else visitsOf server now s.houses s.bank

/-- The visits of one house along the events. -/
def history (i : ℕ) : State → List RentEvent → List Visit
  | _, [] => []
  | s, .payHouses now :: es => (visits server s now)[i]?.toList ++ history i (payHouses server s now) es
  | s, e :: es => history i (rentStep server s e) es

/-- What a visit should do after the visits before it: take the rent if it is due and there is
enough, not be due within a period of a payment, and take the house only if it is the eighth
due run in a row with too little. -/
structure Lawful (past : List Visit) (v : Visit) : Prop where
  payment : (payHouse server v).2.1 = if v.pays server then v.balance - v.house.rent else v.balance
  quiet : v.due server = true → ∀ v' ∈ past, v'.pays server = true → v'.now + server.period.seconds ≤ v.now
  grace : v.house.owner ≠ 0 → (payHouse server v).1.owner = 0 → 8 ≤ shortRuns server (past ++ [v])

/-- All visits of a house are lawful. -/
def RentLaw (vs : List Visit) : Prop :=
  ∀ past v later, vs = past ++ v :: later → Lawful server past v

/-- What a house knows of the visits before: how many of the last ones found too little, and how
long it is paid. -/
structure Records (past : List Visit) (house : House) : Prop where
  warnings : house.rentWarnings ≤ shortRuns server past
  paid : ∀ v ∈ past, v.pays server = true → v.now + server.period.seconds ≤ house.paidUntil

/-! ## One visit -/

section Visit
variable {server} {v : Visit} {past : List Visit}

theorem shortRuns_concat (past : List Visit) (v : Visit) : shortRuns server (past ++ [v]) =
      if v.due server then if v.balance < v.house.rent then shortRuns server past + 1 else 0
      else shortRuns server past := by
  unfold shortRuns
  rw [List.filter_append]
  by_cases hdue : v.due server = true
  · rw [if_pos hdue, List.filter_cons_of_pos hdue, List.filter_nil, List.reverse_append,
      List.reverse_singleton, List.singleton_append, List.takeWhile_cons]
    by_cases hshort : v.balance < v.house.rent
    · simp [hshort]
    · simp [hshort]
  · rw [if_neg hdue, List.filter_cons_of_neg hdue, List.filter_nil, List.append_nil]

theorem due_iff : v.due server = true ↔ v.house.owner ≠ 0 ∧ v.house.rent ≠ 0 ∧ v.house.paidUntil ≤ v.now ∧
      server.hasTown v.house.townId = true := by
  simp only [Visit.due, Bool.and_eq_true, decide_eq_true_eq, and_assoc]

theorem payHouse_of_not_due (h : v.due server = false) : payHouse server v = (v.house, v.balance, .none) := by
  rw [payHouse]
  split
  · rfl
  · rename_i howner
    split
    · rfl
    · rename_i hrent
      split
      · rfl
      · rename_i htown
        refine absurd (due_iff.mpr ⟨howner, ?_, ?_, by simpa using htown⟩) (by rw [h]; exact Bool.false_ne_true)
        · exact fun hzero => hrent (by simp [hzero])
        · exact not_lt.mp fun hlt => hrent (by simp [hlt])

theorem payHouse_of_due (h : v.due server = true) (hloads : server.loads v.house.owner = true) : payHouse server v =
      if v.house.rent ≤ v.balance then
        ({ v.house with paidUntil := v.now + server.period.seconds }, v.balance - v.house.rent, .none)
      else if v.house.rentWarnings < 7 then
        ({ v.house with rentWarnings := v.house.rentWarnings + 1 }, v.balance,
          .letter (letterText server v.house (7 - v.house.rentWarnings)))
      else (v.house.setOwner server 0 false v.now, v.balance, .none) := by
  obtain ⟨howner, hrent, hpaid, htown⟩ := due_iff.mp h
  have hguard : ¬ (v.house.rent = 0 || v.now < v.house.paidUntil) = true := by
    simp [hrent, not_lt.mpr hpaid]
  rw [payHouse, if_neg howner, if_neg hguard, if_neg (by simp [htown]), if_neg (by simp [hloads])]

theorem setOwner_zero {house : House} (howner : house.owner ≠ 0) (now : ℤ) :
    house.setOwner server 0 false now = { house with isLoaded := true, owner := 0, rentWarnings := 0 } := by
  have hother : ¬ (house.isLoaded && house.owner = 0) = true := by simp [howner]
  rw [House.setOwner, if_neg hother]
  simp [howner]

theorem payHouse_balance (v : Visit) (hloads : server.loads v.house.owner = true) :
    (payHouse server v).2.1 = if v.pays server then v.balance - v.house.rent else v.balance := by
  by_cases hdue : v.due server = true
  · by_cases henough : v.house.rent ≤ v.balance
    · have hpays : v.pays server = true := by simp [Visit.pays, hdue, henough]
      rw [payHouse_of_due hdue hloads, if_pos henough, if_pos hpays]
    · have hpays : ¬ v.pays server = true := by simp [Visit.pays, henough]
      rw [if_neg hpays, payHouse_of_due hdue hloads, if_neg henough]
      split <;> rfl
  · have hpays : ¬ v.pays server = true := by simp [Visit.pays, hdue]
    rw [if_neg hpays, payHouse_of_not_due (Bool.eq_false_iff.mpr hdue)]

theorem mem_concat {P : Visit → Prop} (hpast : ∀ v' ∈ past, P v') (hlast : P v) : ∀ v' ∈ past ++ [v], P v' := by
  intro v' hv'
  rcases List.mem_append.mp hv' with hv' | hv'
  · exact hpast v' hv'
  · rw [List.mem_singleton.mp hv']
    exact hlast

theorem Records.visit_not_due (h : Records server past v.house) (hloads : server.loads v.house.owner = true)
    (hdue : v.due server = false) : Lawful server past v ∧ Records server (past ++ [v]) (payHouse server v).1 := by
  have hpays : ¬ v.pays server = true := by
    rw [Visit.pays, hdue]
    exact Bool.false_ne_true
  have hruns : shortRuns server (past ++ [v]) = shortRuns server past := by
    rw [shortRuns_concat, hdue]
    rfl
  rw [payHouse_of_not_due hdue]
  refine ⟨⟨payHouse_balance v hloads, ?_, ?_⟩, ?_, mem_concat h.paid fun hv => absurd hv hpays⟩
  · intro hv
    rw [hdue] at hv
    cases hv
  · intro howner hlost
    rw [payHouse_of_not_due hdue] at hlost
    exact absurd hlost howner
  · rw [hruns]
    exact h.warnings

/-- Where the balance suffices, the house is paid from now on. -/
theorem Records.visit_paid (h : Records server past v.house) (hloads : server.loads v.house.owner = true)
    (hdue : v.due server = true) (henough : v.house.rent ≤ v.balance) (hreset : v.house.rentWarnings = 0) :
    Lawful server past v ∧ Records server (past ++ [v]) (payHouse server v).1 := by
  have hnow := (due_iff.mp hdue).2.2.1
  have hpay := payHouse_of_due hdue hloads
  rw [if_pos henough] at hpay
  rw [hpay]
  refine ⟨⟨payHouse_balance v hloads, fun _ v' hv' hp => (h.paid v' hv' hp).trans hnow, ?_⟩, ?_, ?_⟩
  · intro howner hlost
    rw [hpay] at hlost
    exact absurd hlost howner
  · dsimp only
    rw [hreset]
    exact Nat.zero_le _
  · refine mem_concat (fun v' hv' hp => (h.paid v' hv' hp).trans ?_) fun _ => le_rfl
    have hseconds := server.period.seconds_nonneg
    dsimp only
    omega

/-- Where it does not, there is another warning, or the house is lost after seven. -/
theorem Records.visit_short (h : Records server past v.house) (hloads : server.loads v.house.owner = true)
    (hdue : v.due server = true) (hshort : ¬ v.house.rent ≤ v.balance) :
    Lawful server past v ∧ Records server (past ++ [v]) (payHouse server v).1 := by
  have hpays : ¬ v.pays server = true := by simp [Visit.pays, hshort]
  have hnow := (due_iff.mp hdue).2.2.1
  have howner := (due_iff.mp hdue).1
  have hruns : shortRuns server (past ++ [v]) = shortRuns server past + 1 := by
    rw [shortRuns_concat, if_pos hdue, if_pos (not_le.mp hshort)]
  have hpay := payHouse_of_due hdue hloads
  rw [if_neg hshort] at hpay
  have hwarnings := h.warnings
  by_cases hleft : v.house.rentWarnings < 7
  · rw [if_pos hleft] at hpay
    rw [hpay]
    refine ⟨⟨payHouse_balance v hloads, fun _ v' hv' hp => (h.paid v' hv' hp).trans hnow, ?_⟩, ?_,
      mem_concat h.paid fun hv => absurd hv hpays⟩
    · intro _ hlost
      rw [hpay] at hlost
      exact absurd hlost howner
    · rw [hruns]
      exact Nat.succ_le_succ hwarnings
  · rw [if_neg hleft, setOwner_zero howner] at hpay
    rw [hpay]
    refine ⟨⟨payHouse_balance v hloads, fun _ v' hv' hp => (h.paid v' hv' hp).trans hnow, ?_⟩, ?_,
      mem_concat h.paid fun hv => absurd hv hpays⟩
    · intro _ _
      rw [hruns]
      omega
    · exact Nat.zero_le _

theorem Records.visit (h : Records server past v.house) (hloads : server.loads v.house.owner = true)
    (hreset : v.pays server = true → v.house.rentWarnings = 0) :
    Lawful server past v ∧ Records server (past ++ [v]) (payHouse server v).1 := by
  by_cases hdue : v.due server = true
  · by_cases henough : v.house.rent ≤ v.balance
    · exact h.visit_paid hloads hdue henough (hreset (by simp [Visit.pays, hdue, henough]))
    · exact h.visit_short hloads hdue henough
  · exact h.visit_not_due hloads (Bool.eq_false_iff.mpr hdue)

end Visit

/-! ## Runs -/

section Runs
variable {server} {i : ℕ} {s : State} {past : List Visit}

theorem House.reload_eq (house : House) (now : ℤ) : house.reload server now = { house with isLoaded := true } := by
  by_cases howner : house.owner = 0
  · simp [reload, setOwner, howner]
  · simp [reload, setOwner, howner, Ne.symm howner]

theorem Records.reload {house : House} (h : Records server past house) (now : ℤ) :
    Records server past (house.reload server now) := by
  rw [House.reload_eq]
  exact ⟨h.warnings, h.paid⟩

theorem length_visitsOf (now : ℤ) (houses : List House) (bank : ℕ → ℕ) :
    (visitsOf server now houses bank).length = houses.length := by
  induction houses generalizing bank with
  | nil => rfl
  | cons house houses ih => rw [visitsOf, List.length_cons, ih, List.length_cons]

theorem payLoop_houses (now : ℤ) (houses : List House) (bank : ℕ → ℕ) :
    (payLoop server now houses bank).1 = (visitsOf server now houses bank).map fun v => (payHouse server v).1 := by
  induction houses generalizing bank with
  | nil => rfl
  | cons house houses ih =>
    rw [payLoop, visitsOf, List.map_cons, ← ih]

theorem visitsOf_houses (now : ℤ) (houses : List House) (bank : ℕ → ℕ) :
    (visitsOf server now houses bank).map Visit.house = houses := by
  induction houses generalizing bank with
  | nil => rfl
  | cons house houses ih => rw [visitsOf, List.map_cons, ih]

theorem visits_some {v : Visit} {now : ℤ} (h : (visits server s now)[i]? = some v) :
    s.houses[i]? = some v.house ∧ (payHouses server s now).houses[i]? = some (payHouse server v).1 := by
  unfold visits at h
  unfold payHouses
  split at h
  · cases h
  · rename_i hperiod
    rw [if_neg hperiod, ← @visitsOf_houses server now s.houses s.bank]
    refine ⟨?_, ?_⟩
    · rw [List.getElem?_map, h]
      rfl
    · dsimp only
      rw [payLoop_houses, visitsOf_houses, List.getElem?_map, h]
      rfl

theorem visits_none {now : ℤ} (h : (visits server s now)[i]? = none) :
    (payHouses server s now).houses[i]? = s.houses[i]? := by
  unfold visits at h
  unfold payHouses
  split at h
  · rename_i hperiod
    rw [if_pos hperiod]
  · rename_i hperiod
    have hlen : s.houses.length ≤ i := by
      rwa [List.getElem?_eq_none_iff, length_visitsOf] at h
    rw [if_neg hperiod, List.getElem?_eq_none hlen]
    dsimp only
    rw [payLoop_houses, List.getElem?_eq_none (by rwa [List.length_map, length_visitsOf])]

/-- The balance of an owner goes down by the rents of the visits that pay, and no other does. -/
theorem payLoop_bank (hloads : ∀ guid, server.loads guid = true) (now : ℤ) (houses : List House) (bank : ℕ → ℕ)
    (guid : ℕ) : (payLoop server now houses bank).2 guid + (((visitsOf server now houses bank).filter fun v =>
        v.house.owner = guid && v.pays server).map fun v => v.house.rent).sum = bank guid := by
  induction houses generalizing bank with
  | nil => rfl
  | cons house houses ih =>
    have hrest := ih (Function.update bank house.owner (payHouse server ⟨house, bank house.owner, now⟩).2.1)
    have hbalance := payHouse_balance ⟨house, bank house.owner, now⟩ (hloads house.owner)
    rw [payLoop, visitsOf]
    dsimp only at hrest ⊢
    by_cases howner : house.owner = guid
    · subst howner
      rw [Function.update_self, hbalance] at hrest
      by_cases hpays : Visit.pays server ⟨house, bank house.owner, now⟩ = true
      · have henough : house.rent ≤ bank house.owner := by
          simpa using (Bool.and_eq_true_iff.mp hpays).2
        rw [if_pos hpays] at hrest
        rw [List.filter_cons_of_pos (by simpa using hpays), List.map_cons, List.sum_cons]
        dsimp only at hrest ⊢
        rw [hbalance, if_pos hpays]
        dsimp only
        omega
      · rw [if_neg hpays] at hrest
        rw [List.filter_cons_of_neg (by simpa using hpays), hbalance, if_neg hpays]
        exact hrest
    · rw [Function.update_of_ne (Ne.symm howner)] at hrest
      rw [List.filter_cons_of_neg (by simp [howner])]
      exact hrest

/-- Every visit along the events is lawful, whatever was recorded before. -/
theorem lawful_history (hloads : ∀ guid, server.loads guid = true) {es : List RentEvent}
    (hrecords : ∀ house, s.houses[i]? = some house → Records server past house)
    (hreset : ∀ v ∈ history server i s es, v.pays server = true → v.house.rentWarnings = 0) {before later : List Visit}
    {v : Visit} (hsplit : history server i s es = before ++ v :: later) : Lawful server (past ++ before) v := by
  induction es generalizing s past before with
  | nil => simp [history] at hsplit
  | cons e es ih =>
    cases e with
    | balances bank => exact ih (s := rentStep server s (.balances bank)) hrecords hreset hsplit
    | restart now =>
      refine ih (s := rentStep server s (.restart now)) ?_ hreset hsplit
      intro house hhouse
      obtain ⟨old, hold, rfl⟩ := Option.map_eq_some_iff.mp (List.getElem?_map .. ▸ hhouse)
      exact (hrecords old hold).reload now
    | payHouses now =>
      rw [history] at hreset hsplit
      cases hvisit : (visits server s now)[i]? with
      | none =>
        rw [hvisit, Option.toList_none, List.nil_append] at hreset hsplit
        refine ih (fun house hhouse => ?_) hreset hsplit
        rw [visits_none hvisit] at hhouse
        exact hrecords house hhouse
      | some v₀ =>
        rw [hvisit, Option.toList_some, List.singleton_append] at hreset hsplit
        obtain ⟨hbefore, hafter⟩ := visits_some hvisit
        obtain ⟨hlawful, hnext⟩ := (hrecords v₀.house hbefore).visit (hloads _) (hreset v₀ List.mem_cons_self)
        cases before with
        | nil =>
          obtain ⟨rfl, -⟩ := List.cons.inj hsplit
          rwa [List.append_nil]
        | cons v₁ before =>
          obtain ⟨rfl, htail⟩ := List.cons.inj hsplit
          rw [List.append_cons]
          refine ih (fun house hhouse => ?_) (fun v hv => hreset v (List.mem_cons_of_mem _ hv)) htail
          rw [hafter] at hhouse
          cases hhouse
          exact hnext

end Runs

/-- Along any events, from a house without warnings: every visit of it is lawful, if nothing is
paid while there are warnings. Every run takes the rents that are due from who can pay them. -/
theorem rent_law (hloads : ∀ guid, server.loads guid = true) (i : ℕ) (s : State)
    (es : List RentEvent) (hstart : ∀ house, s.houses[i]? = some house → house.rentWarnings = 0)
    (hreset : ∀ v ∈ history server i s es, v.pays server = true → v.house.rentWarnings = 0) :
    RentLaw server (history server i s es) ∧ ∀ (s : State) (now : ℤ) (guid : ℕ), (payHouses server s now).bank guid +
        (((visits server s now).filter fun v =>
          v.house.owner = guid && v.pays server).map fun v => v.house.rent).sum = s.bank guid := by
  refine ⟨fun past v later hsplit => ?_, fun s now guid => ?_⟩
  · have hrecords : ∀ house, s.houses[i]? = some house → Records server [] house := by
      intro house hhouse
      refine ⟨?_, nofun⟩
      rw [hstart house hhouse]
      exact Nat.zero_le _
    exact lawful_history hloads hrecords hreset hsplit
  · unfold payHouses visits
    split
    · rfl
    · exact payLoop_bank hloads now s.houses s.bank guid

def daily : Server := ⟨.daily, fun _ => true, fun _ => true⟩

/-- A house of the player 1, who has no money. -/
def cottage : State := ⟨[{ rent := 100, owner := 1 }], fun _ => 0⟩

/-- Two payments, a day apart. -/
theorem rent_law_cottage : RentLaw daily (history daily 0 cottage
      [.balances fun _ => 250, .payHouses 0, .restart 5, .payHouses 86399, .payHouses 86400]) :=
  (rent_law daily (fun _ => rfl) 0 cottage _ (fun _ h => by cases h; rfl) (by decide)).1

/-- Seven runs with too little, one that is paid a minute later, and one with too little a day
after that: the last one takes the house, though it is the first in a row. -/
theorem grace_is_shortened : ¬ RentLaw daily (history daily 0 cottage (List.replicate 7 (.payHouses 0) ++
      [.balances fun _ => 100, .payHouses 60, .payHouses 86460])) := by
  intro hlaw
  have hlast := (hlaw _ ⟨{ rent := 100, owner := 1, paidUntil := 86460, rentWarnings := 7 }, 0, 86460⟩
    [] (List.dropLast_append_getLast (by decide)).symm).grace (by decide) (by decide)
  revert hlast
  decide

end ForgottenServer.Houses
