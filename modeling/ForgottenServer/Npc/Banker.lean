import ForgottenServer.Lib.Run
import ForgottenServer.Lib.Table
import ForgottenServer.Money.Exact
import ForgottenServer.Money.Kinds
import Mathlib.Algebra.BigOperators.Group.Finset.Piecewise
import Mathlib.Data.Fintype.Basic

/-! # The bank NPC

`creatureSayCallback` is a state machine: for each player it keeps a topic, the
number he typed last and the account he wants to transfer to. What a message
does to coins and balances is a `Deal`; numbers are Lua numbers until a C++
function takes them. The coins lie in the world of things and cylinders. What the NPC says
is left out, and so are the keywords that are answered before the callback is reached. -/
namespace ForgottenServer.Npc.Banker
open ForgottenServer.Lib ForgottenServer.Lib.Run ForgottenServer.Lib.Binary64
open ForgottenServer.Lib.Rounding ForgottenServer.Things

/-- `topicList`. -/
inductive Topic
  | none
  | depositGold | depositConsent
  | withdrawGold | withdrawConsent
  | transferPlayerGold | transferPlayerWho | transferPlayerConsent
  | changeGoldChoose | changeGoldPlatinum | changeGoldPlatinumConsent
  | changePlatinumGoldOrCrystal | changePlatinumGold | changePlatinumGoldConsent
  | changePlatinumCrystal | changePlatinumCrystalConsent
  | changeCrystalPlatinum | changeCrystalPlatinumConsent
  deriving DecidableEq, Repr

/-- What `getPlayerDatabaseInfo` tells of an account. -/
structure Info (P : Type*) where
  guid : P
  name : String
  vocation : ℕ
  deriving DecidableEq

/-- What the NPC remembers of a player. -/
structure Dialog (P : Type*) where
  focused : Bool := false
  topic : Topic := .none
  count : Option Double := none
  transfer : Option (Info P) := none
  deriving DecidableEq

/-- What the game answers while a message is handled. -/
structure Scene (P : Type*) where
  /-- the speaker among the players of the world -/
  player : ℕ
  trades : Trades := {}
  getFreeCapacity : Double
  /-- `getEmptySlots(true)` of the backpack, if the player wears one -/
  emptySlots : Option Double
  /-- the weight of one coin -/
  weight : Coin → ℕ
  getName : String
  online : P → Bool
  getPlayerDatabaseInfo : String → Option (Info P)

/-- What a message does to the coins and balances of its speaker. -/
inductive Deal (P : Type*)
  | none
  | deposit (count : Double)
  | withdraw (count : Double)
  | transfer (target : Info P) (count : Double)
  | change (give : Coin) (removed : Double) (take : Coin) (added : Double)
  deriving DecidableEq

/-! ## Words and numbers -/

def lower (s : String) : List Char := s.toList.map Char.toLower

/-- `msgcontains`; the keywords have no pattern characters. -/
def msgcontains (message keyword : String) : Bool :=
  let message := lower message
  let keyword := lower keyword
  message == keyword ||
    (message.tails.any keyword.isPrefixOf &&
      !message.tails.any fun t => t.head?.any Char.isAlphanum && keyword.isPrefixOf t.tail)

/-- The first run of digits. -/
def digits (s : String) : List Char := (s.toList.dropWhile (!·.isDigit)).takeWhile Char.isDigit

def decimal (ds : List Char) : ℕ := ds.foldl (fun n c => 10 * n + (c.toNat - '0'.toNat)) 0

def isValidMoney (money : Double) : Bool := (Double.fin 0).lt money

def getMoneyCount (s : String) : Double :=
  if (digits s).isEmpty then .fin (-1)
  else
    let money := Double.ofNat (decimal (digits s))
    if isValidMoney money then money else .fin (-1)

/-- `msg:split(" ")`. -/
def words (s : String) : List String :=
  ((s.toList.splitOn ' ').filter (· ≠ [])).map String.ofList

def trim (s : String) : String :=
  String.ofList ((s.toList.dropWhile Char.isWhitespace).reverse.dropWhile Char.isWhitespace).reverse

/-! ## Weights -/

variable {P : Type*}

/-- `type:getWeight(count)`. -/
def getWeight (sc : Scene P) (k : Coin) (count : Double) : Double :=
  .ofNat (sc.weight k * max 1 (count.toInt32 % 2 ^ 16).toNat)

/-- The loops of `canCarryMoney`: the weight and the slots of coins that are
taken in hundreds. They end when the fuel suffices, and never for numbers so
large that subtracting a hundred does not change them. -/
def stackLoop (sc : Scene P) (k : Coin) : ℕ → Double → Double × Double → Option (Double × Double)
  | 0, _, _ => none
  | fuel + 1, coins, (totalWeight, inventorySlots) =>
    if (Double.fin 0).lt coins then
      let count := Double.min (.fin 100) coins
      stackLoop sc k fuel (coins.sub count) (totalWeight.add (getWeight sc k count), inventorySlots.add (.fin 1))
    else some (totalWeight, inventorySlots)

/-- More turns than a loop makes that ends. -/
def loopFuel : ℕ := 2 ^ 64

/-- The coins of a worth that an amount is paid in, and the rest of it. -/
def takeCoins (sc : Scene P) (k : Coin) (worth amount : Double) (load : Double × Double) :
    Option (Double × Double × Double) :=
  let coins := (amount.div worth).floor
  if (Double.fin 0).lt coins then
    (stackLoop sc k loopFuel coins load).map (amount.sub (coins.mul worth), ·)
  else some (amount, load)

/-- `Player.canCarryMoney`, if it returns. -/
def canCarryMoney (sc : Scene P) (amount : Double) : Option Bool := do
  if amount = .fin 0 then return true
  let (amount, load) ← takeCoins sc .crystal (.fin 10000) amount (.fin 0, .fin 0)
  let (amount, load) ← takeCoins sc .platinum (.fin 100) amount load
  let (totalWeight, inventorySlots) ← stackLoop sc .gold loopFuel amount load
  if sc.getFreeCapacity.lt totalWeight then return false
  match sc.emptySlots with
  | none => return false
  | some slots => return !slots.lt inventorySlots

/-- `getMoneyWeight`. -/
def getMoneyWeight (sc : Scene P) (money : Double) : Double :=
  let crystal := (money.div (.fin 10000)).floor
  let gold := money.sub (crystal.mul (.fin 10000))
  let platinum := (gold.div (.fin 100)).floor
  let gold := gold.sub (platinum.mul (.fin 100))
  ((Double.mul (.ofNat (sc.weight .crystal)) crystal).add (Double.mul (.ofNat (sc.weight .platinum)) platinum)).add
    (Double.mul (.ofNat (sc.weight .gold)) gold)

/-! ## The callback -/

/-- Set a topic and make no deal. -/
def Dialog.goto (d : Dialog P) (topic : Topic) : Option (Dialog P × Deal P) :=
  some ({ d with topic := topic }, .none)

/-- The topics that ask for a number of coins to change: `next` once there is one. -/
def askCoins (d : Dialog P) (msg : String) (next : Topic) : Option (Dialog P × Deal P) :=
  if (getMoneyCount msg).lt (.fin 1) then d.goto .none
  else { d with count := some (getMoneyCount msg) }.goto next

/-- The topics that change coins on a yes, when the coins can be carried. -/
def changeCoins (d : Dialog P) (msg : String) (fits : Double → Bool)
    (deal : Double → Deal P) : Option (Dialog P × Deal P) :=
  if msgcontains msg "yes" then
    match d.count with
    | none => some (d, .none)
    | some count =>
      if fits count then some ({ d with topic := .none }, deal count) else d.goto .none
  else d.goto .none

/-- The account of a transfer was named. A missing account is indexed all the
same, which ends the script; the topic stays. -/
def nameTarget (sc : Scene P) (d : Dialog P) (receiver : String) : Option (Dialog P × Deal P) :=
  let d := { d with transfer := sc.getPlayerDatabaseInfo receiver }
  match d.transfer with
  | none => some (d, .none)
  | some target =>
    if sc.getName = target.name then d.goto .none
    else if target.vocation = 0 then d.goto .none
    else d.goto .transferPlayerConsent

/-- `creatureSayCallback` for a player with so much money and balance; `none`
when it does not return. -/
def creatureSayCallback (sc : Scene P) (money balance : ℕ) (d : Dialog P) (msg : String) :
    Option (Dialog P × Deal P) :=
  let getMoney := Double.ofNat money
  let getBankBalance := Double.ofNat balance
  if !d.focused then some (d, .none)
  else if msgcontains msg "bank account" then d.goto .none
  else if msgcontains msg "balance" then d.goto .none
  else if msgcontains msg "deposit" then
    let d := { d with count := some getMoney }
    if getMoney.lt (.fin 1) then d.goto .none
    else if msgcontains msg "all" then d.goto .depositConsent
    else if (digits msg).isEmpty then d.goto .depositGold
    else
      let d := { d with count := some (getMoneyCount msg) }
      if (getMoneyCount msg).lt (.fin 1) then d.goto .none else d.goto .depositConsent
  else if d.topic = .depositGold then
    let d := { d with count := some (getMoneyCount msg) }
    if isValidMoney (getMoneyCount msg) then d.goto .depositConsent else d.goto .none
  else if d.topic = .depositConsent then
    if msgcontains msg "yes" then
      match d.count with
      | none => some (d, .none)
      | some count =>
        some ({ d with topic := .none }, if count.le getMoney then .deposit count else .none)
    else d.goto .none
  else if msgcontains msg "withdraw" then
    if (digits msg).isEmpty then d.goto .withdrawConsent
    else
      let d := { d with count := some (getMoneyCount msg) }
      if isValidMoney (getMoneyCount msg) then d.goto .withdrawGold else d.goto .none
  else if d.topic = .withdrawConsent then
    let d := { d with count := some (getMoneyCount msg) }
    if isValidMoney (getMoneyCount msg) then d.goto .withdrawGold else d.goto .none
  else if d.topic = .withdrawGold then
    if msgcontains msg "yes" then
      match d.count with
      | none => some (d, .none)
      | some count =>
        (canCarryMoney sc count).map fun fits =>
          ({ d with topic := .none }, if fits then .withdraw count else .none)
    else if msgcontains msg "no" then d.goto .none
    else some (d, .none)
  else if msgcontains msg "transfer" then
    match words msg with
    | _ :: amount :: receiver =>
      let d := { d with count := some (getMoneyCount amount) }
      if getBankBalance.lt (getMoneyCount amount) then d.goto .none
      else if !isValidMoney (getMoneyCount amount) then d.goto .none
      else match receiver with
        | [] => d.goto .transferPlayerWho
        | [name] => nameTarget sc d (trim name)
        | first :: rest =>
          nameTarget sc d (trim (" ".intercalate (if first = "to" then rest else first :: rest)))
    | _ => d.goto .transferPlayerGold
  else if d.topic = .transferPlayerGold then
    let d := { d with count := some (getMoneyCount msg) }
    if getBankBalance.lt (getMoneyCount msg) then d.goto .none
    else if isValidMoney (getMoneyCount msg) then d.goto .transferPlayerWho
    else d.goto .none
  else if d.topic = .transferPlayerWho then nameTarget sc d msg
  else if d.topic = .transferPlayerConsent then
    if msgcontains msg "yes" then
      match d.transfer, d.count with
      | none, _ => d.goto .none
      | some _, none => some (d, .none)
      | some target, some count =>
        if getBankBalance.lt count then d.goto .none
        else some ({ d with topic := .none, transfer := none }, .transfer target count)
    else d.goto .none
  else if msgcontains msg "change" then
    match words msg with
    | _ :: kind :: _ =>
      if lower kind = "gold".toList then d.goto .changeGoldPlatinum
      else if lower kind = "platinum".toList then d.goto .changePlatinumGoldOrCrystal
      else if lower kind = "crystal".toList then d.goto .changeCrystalPlatinum
      else some (d, .none)
    | _ => d.goto .changeGoldChoose
  else if msgcontains msg "gold" ∧ d.topic = .changeGoldChoose then d.goto .changeGoldPlatinum
  else if msgcontains msg "platinum" ∧ d.topic = .changeGoldChoose then
    d.goto .changePlatinumGoldOrCrystal
  else if msgcontains msg "crystal" ∧ d.topic = .changeGoldChoose then d.goto .changeCrystalPlatinum
  else if d.topic = .changeGoldPlatinum then askCoins d msg .changeGoldPlatinumConsent
  else if d.topic = .changeGoldPlatinumConsent then
    changeCoins d msg (fun _ => true) fun count =>
      .change .gold (count.mul (.fin 100)) .platinum count
  else if d.topic = .changePlatinumGoldOrCrystal then
    if msgcontains msg "gold" then d.goto .changePlatinumGold
    else if msgcontains msg "crystal" then d.goto .changePlatinumCrystal
    else d.goto .none
  else if d.topic = .changePlatinumGold then askCoins d msg .changePlatinumGoldConsent
  else if d.topic = .changePlatinumGoldConsent then
    changeCoins d msg (fun count => (getMoneyWeight sc count).le sc.getFreeCapacity) fun count =>
      .change .platinum count .gold (count.mul (.fin 100))
  else if d.topic = .changePlatinumCrystal then askCoins d msg .changePlatinumCrystalConsent
  else if d.topic = .changePlatinumCrystalConsent then
    changeCoins d msg (fun _ => true) fun count =>
      .change .platinum (count.mul (.fin 100)) .crystal count
  else if d.topic = .changeCrystalPlatinum then askCoins d msg .changeCrystalPlatinumConsent
  else if d.topic = .changeCrystalPlatinumConsent then
    changeCoins d msg (fun count => (getMoneyWeight sc count).le sc.getFreeCapacity) fun count =>
      .change .crystal count .platinum (count.mul (.fin 100))
  else some (d, .none)

/-! ## Deals -/

structure BankState (P : Type*) where
  world : World
  bankBalance : P → ℕ
  dialog : P → Dialog P

section Perform
variable [DecidableEq P]

/-- `player:setBankBalance`. -/
def setBankBalance (bank : P → ℕ) (p : P) (balance : Double) : P → ℕ :=
  if balance.toInt64 < 0 then bank else Function.update bank p balance.toInt64.toNat

/-- What MySQL makes of `balance + amount` when the amount is spelled as Lua
spells it: fourteen digits are an exact integer, more are a double. -/
def sqlAdd (balance : ℕ) : Double → ℕ
  | .fin q =>
    if |q| < 10 ^ 14 then
      if 2 ^ 64 ≤ balance + ⌊q⌋.toNat then balance else balance + ⌊q⌋.toNat
    else
      let (d, e) := Double.digits14 |q|
      match (Double.ofNat balance).add (Double.rnd (d * 10 ^ (e - 13))) with
      | .fin r => (halfEven r).toNat
      | _ => balance
  | _ => balance

variable (rules : Rules) (maxItems : ℕ → ℕ)

/-- `depositMoney`, `withdrawMoney`, `transferMoneyTo` behind its check, and the
change of coins. -/
def perform (sc : Scene P) (s : BankState P) (p : P) : Deal P → Option (BankState P)
  | .none => some s
  | .deposit count =>
    (s.world.removeMoney rules maxItems sc.trades sc.player count.toUInt64).map fun (removed, world) =>
      if !removed then { s with world }
      else
        let balance := (Double.ofNat (s.bankBalance p)).add count
        { s with world, bankBalance := setBankBalance s.bankBalance p balance }
  | .withdraw count =>
    let balance := Double.ofNat (s.bankBalance p)
    if balance.lt count then some s
    else
      (s.world.addMoney rules maxItems sc.trades sc.player count.toUInt64).map fun world =>
        { s with world, bankBalance := setBankBalance s.bankBalance p (balance.sub count) }
  | .transfer target count =>
    let bank :=
      if sc.online target.guid ∨ target.guid = p then
        setBankBalance s.bankBalance target.guid ((Double.ofNat (s.bankBalance target.guid)).add count)
      else Function.update s.bankBalance target.guid (sqlAdd (s.bankBalance target.guid) count)
    some { s with bankBalance := setBankBalance bank p ((Double.ofNat (bank p)).sub count) }
  | .change give removed take added =>
    let (ok, world) := s.world.removeItem rules sc.trades give removed sc.player
    if !ok then some { s with world }
    else (world.addItem rules maxItems sc.trades take added sc.player).map fun world => { s with world }

/-- The players greet the NPC, take leave of it and talk to it. In between other things happen. -/
inductive Event (P : Type*)
  | greet (p : P)
  | farewell (p : P)
  | say (sc : Scene P) (p : P) (msg : String)
  | meanwhile (world : World)

/-- The callback for a message said in a state. -/
def BankState.answer (s : BankState P) (sc : Scene P) (p : P) (msg : String) : Option (Dialog P × Deal P) :=
  creatureSayCallback sc (s.world.getMoney sc.player) (s.bankBalance p) (s.dialog p) msg

def step (s : BankState P) : Event P → BankState P
  | .greet p =>
    if (s.dialog p).focused then s
    else { s with dialog := Function.update s.dialog p { focused := true } }
  | .farewell p =>
    let d := s.dialog p
    { s with dialog := Function.update s.dialog p { d with focused := false, topic := .none } }
  | .say sc p msg =>
    match s.answer sc p msg with
    | none => s
    | some (d, deal) =>
      match perform rules maxItems sc s p deal with
      | none => s
      | some s' => { s' with dialog := Function.update s.dialog p d }
  | .meanwhile world => { s with world }

end Perform

/-! ## What the callback does -/

/-- A number of coins: positive and whole, or too large for a double. -/
def Positive (c : Double) : Prop := c = .inf false ∨ ∃ n : ℕ, 0 < n ∧ c = .fin n

/-- The topics that will use the number typed before. -/
def Topic.usesCount : Topic → Bool
  | .depositConsent | .withdrawGold | .transferPlayerWho | .transferPlayerConsent
  | .changeGoldPlatinumConsent | .changePlatinumGoldConsent | .changePlatinumCrystalConsent
  | .changeCrystalPlatinumConsent => true
  | _ => false

def Dialog.Ready (d : Dialog P) : Prop :=
  d.topic.usesCount = true → ∃ c, d.count = some c ∧ Positive c

theorem positive_ofNat {n : ℕ} (h : isValidMoney (Double.ofNat n) = true) : Positive (Double.ofNat n) := by
  rcases Double.ofNat_cases n with hn | ⟨m, hn⟩
  · exact .inl hn
  · rw [hn] at h
    refine .inr ⟨m, ?_, hn⟩
    simpa [isValidMoney, Double.lt] using h

theorem isValidMoney_of_not_lt_one {c : Double} (hc : c ≠ .nan) (h : c.lt (.fin 1) = false) :
    isValidMoney c = true := by
  cases c with
  | nan => exact absurd rfl hc
  | inf s => cases s <;> simp_all [isValidMoney, Double.lt]
  | fin q =>
    simp only [Double.lt, decide_eq_false_iff_not, not_lt] at h
    simp only [isValidMoney, Double.lt, decide_eq_true_eq]
    exact zero_lt_one.trans_le h

theorem positive_money {n : ℕ} (h : (Double.ofNat n).lt (.fin 1) = false) : Positive (Double.ofNat n) := by
  refine positive_ofNat (isValidMoney_of_not_lt_one ?_ h)
  rcases Double.ofNat_cases n with hn | ⟨m, hn⟩ <;> simp [hn]

theorem positive_getMoneyCount {msg : String} (h : isValidMoney (getMoneyCount msg) = true) :
    Positive (getMoneyCount msg) := by
  unfold getMoneyCount at h ⊢
  split
  · rename_i hd
    rw [if_pos hd] at h
    norm_num [isValidMoney, Double.lt] at h
  · dsimp only
    split
    · rename_i hv
      exact positive_ofNat hv
    · rename_i hd hv
      rw [if_neg hd] at h
      simp only [hv, if_false, Bool.false_eq_true] at h
      norm_num [isValidMoney, Double.lt] at h

theorem positive_getMoneyCount_one {msg : String} (h : (getMoneyCount msg).lt (.fin 1) = false) :
    Positive (getMoneyCount msg) := by
  refine positive_getMoneyCount (isValidMoney_of_not_lt_one ?_ h)
  unfold getMoneyCount
  split
  · simp
  · dsimp only
    split
    · rcases Double.ofNat_cases (decimal (digits msg)) with hn | ⟨m, hn⟩ <;> simp [hn]
    · simp

/-- The deals a message can make: on a yes, about the number typed before, and
of the kind the topic asks for. -/
inductive Makes (sc : Scene P) (money balance : ℕ) (d : Dialog P) (c : Double) : Deal P → Prop
  | deposit (h : d.topic = .depositConsent) (hle : c.le (Double.ofNat money) = true) :
    Makes sc money balance d c (.deposit c)
  | withdraw (h : d.topic = .withdrawGold) (hcarry : canCarryMoney sc c = some true) :
    Makes sc money balance d c (.withdraw c)
  | transfer (h : d.topic = .transferPlayerConsent) (hc : (Double.ofNat balance).lt c = false)
    (target : Info P) (ht : d.transfer = some target) : Makes sc money balance d c (.transfer target c)
  | goldPlatinum (h : d.topic = .changeGoldPlatinumConsent) :
    Makes sc money balance d c (.change .gold (c.mul (.fin 100)) .platinum c)
  | platinumGold (h : d.topic = .changePlatinumGoldConsent)
    (hfits : (getMoneyWeight sc c).le sc.getFreeCapacity = true) :
    Makes sc money balance d c (.change .platinum c .gold (c.mul (.fin 100)))
  | platinumCrystal (h : d.topic = .changePlatinumCrystalConsent) :
    Makes sc money balance d c (.change .platinum (c.mul (.fin 100)) .crystal c)
  | crystalPlatinum (h : d.topic = .changeCrystalPlatinumConsent)
    (hfits : (getMoneyWeight sc c).le sc.getFreeCapacity = true) :
    Makes sc money balance d c (.change .crystal c .platinum (c.mul (.fin 100)))

/-- An answer that leaves a number where one is needed, and makes no deal or one
of those. Only the loops of `canCarryMoney` can keep the callback from answering. -/
def Spec (sc : Scene P) (money balance : ℕ) (d : Dialog P) (msg : String) : Option (Dialog P × Deal P) → Prop
  | none => msgcontains msg "yes" = true ∧ d.topic = .withdrawGold ∧
    ∃ c, d.count = some c ∧ Positive c ∧ canCarryMoney sc c = none
  | some (d', deal) => d'.Ready ∧ (deal = .none ∨ msgcontains msg "yes" = true ∧
      ∃ c, d.count = some c ∧ Positive c ∧ Makes sc money balance d c deal)

section Spec
variable {sc : Scene P} {money balance : ℕ} {d : Dialog P} {msg : String}

theorem Spec.ite {r r' : Option (Dialog P × Deal P)} {c : Prop} [Decidable c] (h : c → Spec sc money balance d msg r)
    (h' : ¬c → Spec sc money balance d msg r') : Spec sc money balance d msg (if c then r else r') := by
  split
  · exact h ‹_›
  · exact h' ‹_›

theorem Spec.same {d' : Dialog P} (h : d'.Ready) : Spec sc money balance d msg (some (d', .none)) := by
  exact ⟨h, .inl rfl⟩

theorem Spec.goto {d' : Dialog P} {t : Topic} (h : t.usesCount = true → ∃ c, d'.count = some c ∧ Positive c) :
    Spec sc money balance d msg (d'.goto t) := Spec.same h

theorem Spec.leave {d' : Dialog P} {t : Topic} (h : t.usesCount = false) :
    Spec sc money balance d msg (d'.goto t) := Spec.goto fun ht => by rw [h] at ht; cases ht

theorem Spec.askCoins {next : Topic} : Spec sc money balance d msg (Banker.askCoins d msg next) := by
  unfold Banker.askCoins
  refine Spec.ite (fun _ => Spec.leave rfl) fun h => Spec.goto fun _ => ⟨_, rfl, ?_⟩
  exact positive_getMoneyCount_one (by simpa using h)

theorem Spec.changeCoins (hd : d.Ready) (ht : d.topic.usesCount = true) {fits : Double → Bool}
    {deal : Double → Deal P} (h : ∀ c, fits c = true → Makes sc money balance d c (deal c)) :
    Spec sc money balance d msg (Banker.changeCoins d msg fits deal) := by
  obtain ⟨c, hc, hpos⟩ := hd ht
  unfold Banker.changeCoins
  refine Spec.ite (fun hyes => ?_) fun _ => Spec.leave rfl
  rw [hc]
  refine Spec.ite (fun hfits => ?_) fun _ => Spec.leave rfl
  exact ⟨(fun ht => by cases ht), .inr ⟨hyes, c, hc, hpos, h c hfits⟩⟩

theorem Spec.nameTarget {d' : Dialog P} {receiver : String} (h : ∃ c, d'.count = some c ∧ Positive c) :
    Spec sc money balance d msg (Banker.nameTarget sc d' receiver) := by
  unfold Banker.nameTarget
  dsimp only
  cases sc.getPlayerDatabaseInfo receiver with
  | none => exact Spec.same fun _ => h
  | some target =>
    exact Spec.ite (fun _ => Spec.leave rfl) fun _ => Spec.ite (fun _ => Spec.leave rfl) fun _ =>
      Spec.goto fun _ => h

theorem callback_spec (sc : Scene P) (money balance : ℕ) (msg : String) (hd : d.Ready) :
    Spec sc money balance d msg (creatureSayCallback sc money balance d msg) := by
  unfold creatureSayCallback
  dsimp only
  refine Spec.ite (fun _ => Spec.same hd) fun _ => ?_
  refine Spec.ite (fun _ => Spec.leave rfl) fun _ => ?_
  refine Spec.ite (fun _ => Spec.leave rfl) fun _ => ?_
  refine Spec.ite (fun _ => ?deposit) fun _ => ?_
  case deposit =>
    refine Spec.ite (fun _ => Spec.leave rfl) fun hmoney => ?_
    refine Spec.ite (fun _ => Spec.goto fun _ => ⟨_, rfl, positive_money (by simpa using hmoney)⟩)
      fun _ => ?_
    refine Spec.ite (fun _ => Spec.leave rfl) fun _ => ?_
    refine Spec.ite (fun _ => Spec.leave rfl) fun hone => ?_
    exact Spec.goto fun _ => ⟨_, rfl, positive_getMoneyCount_one (by simpa using hone)⟩
  refine Spec.ite (fun _ => ?depositGold) fun _ => ?_
  case depositGold =>
    exact Spec.ite (fun h => Spec.goto fun _ => ⟨_, rfl, positive_getMoneyCount h⟩) fun _ => Spec.leave rfl
  refine Spec.ite (fun ht => ?depositConsent) fun _ => ?_
  case depositConsent =>
    obtain ⟨c, hc, hpos⟩ := hd (by rw [ht]; rfl)
    refine Spec.ite (fun hyes => ?_) fun _ => Spec.leave rfl
    rw [hc]
    refine ⟨(fun h => by cases h), ?_⟩
    split
    · rename_i hle
      exact .inr ⟨hyes, c, hc, hpos, .deposit ht hle⟩
    · exact .inl rfl
  refine Spec.ite (fun _ => ?withdraw) fun _ => ?_
  case withdraw =>
    refine Spec.ite (fun _ => Spec.leave rfl) fun _ => ?_
    exact Spec.ite (fun h => Spec.goto fun _ => ⟨_, rfl, positive_getMoneyCount h⟩) fun _ => Spec.leave rfl
  refine Spec.ite (fun _ => ?withdrawConsent) fun _ => ?_
  case withdrawConsent =>
    exact Spec.ite (fun h => Spec.goto fun _ => ⟨_, rfl, positive_getMoneyCount h⟩) fun _ => Spec.leave rfl
  refine Spec.ite (fun ht => ?withdrawGold) fun _ => ?_
  case withdrawGold =>
    obtain ⟨c, hc, hpos⟩ := hd (by rw [ht]; rfl)
    refine Spec.ite (fun hyes => ?_) fun _ =>
      Spec.ite (fun _ => Spec.leave rfl) fun _ => Spec.same hd
    rw [hc]
    dsimp only
    cases hcarry : canCarryMoney sc c with
    | none => exact ⟨hyes, ht, c, hc, hpos, hcarry⟩
    | some fits =>
      refine ⟨(fun h => by cases h), ?_⟩
      cases fits with
      | true => exact .inr ⟨hyes, c, hc, hpos, .withdraw ht hcarry⟩
      | false => exact .inl rfl
  refine Spec.ite (fun _ => ?transfer) fun _ => ?_
  case transfer =>
    split
    · rename_i amount receiver _
      refine Spec.ite (fun _ => Spec.leave rfl) fun _ => ?_
      refine Spec.ite (fun _ => Spec.leave rfl) fun hv => ?_
      have hcount : ∃ c, some (getMoneyCount amount) = some c ∧ Positive c :=
        ⟨_, rfl, positive_getMoneyCount (by simpa using hv)⟩
      split
      · exact Spec.goto fun _ => hcount
      · exact Spec.nameTarget hcount
      · exact Spec.nameTarget hcount
    · exact Spec.leave rfl
  refine Spec.ite (fun _ => ?transferGold) fun _ => ?_
  case transferGold =>
    refine Spec.ite (fun _ => Spec.leave rfl) fun _ => ?_
    exact Spec.ite (fun h => Spec.goto fun _ => ⟨_, rfl, positive_getMoneyCount h⟩) fun _ => Spec.leave rfl
  refine Spec.ite (fun ht => Spec.nameTarget (hd (by rw [ht]; rfl))) fun _ => ?_
  refine Spec.ite (fun ht => ?transferConsent) fun _ => ?_
  case transferConsent =>
    obtain ⟨c, hc, hpos⟩ := hd (by rw [ht]; rfl)
    refine Spec.ite (fun hyes => ?_) fun _ => Spec.leave rfl
    rw [hc]
    cases htarget : d.transfer with
    | none => exact Spec.leave rfl
    | some target =>
      refine Spec.ite (fun _ => Spec.leave rfl) fun hle => ?_
      exact ⟨(fun h => by cases h), .inr ⟨hyes, c, hc, hpos,
        .transfer ht (by simpa using hle) target htarget⟩⟩
  refine Spec.ite (fun _ => ?change) fun _ => ?_
  case change =>
    split
    · exact Spec.ite (fun _ => Spec.leave rfl) fun _ => Spec.ite (fun _ => Spec.leave rfl) fun _ =>
        Spec.ite (fun _ => Spec.leave rfl) fun _ => Spec.same hd
    · exact Spec.leave rfl
  refine Spec.ite (fun _ => Spec.leave rfl) fun _ => ?_
  refine Spec.ite (fun _ => Spec.leave rfl) fun _ => ?_
  refine Spec.ite (fun _ => Spec.leave rfl) fun _ => ?_
  refine Spec.ite (fun _ => Spec.askCoins) fun _ => ?_
  refine Spec.ite (fun ht => Spec.changeCoins hd (by rw [ht]; rfl) fun _ _ => .goldPlatinum ht)
    fun _ => ?_
  refine Spec.ite (fun _ => Spec.ite (fun _ => Spec.leave rfl) fun _ =>
    Spec.ite (fun _ => Spec.leave rfl) fun _ => Spec.leave rfl) fun _ => ?_
  refine Spec.ite (fun _ => Spec.askCoins) fun _ => ?_
  refine Spec.ite (fun ht => Spec.changeCoins hd (by rw [ht]; rfl) fun _ => .platinumGold ht)
    fun _ => ?_
  refine Spec.ite (fun _ => Spec.askCoins) fun _ => ?_
  refine Spec.ite (fun ht => Spec.changeCoins hd (by rw [ht]; rfl) fun _ _ => .platinumCrystal ht)
    fun _ => ?_
  refine Spec.ite (fun _ => Spec.askCoins) fun _ => ?_
  exact Spec.ite (fun ht => Spec.changeCoins hd (by rw [ht]; rfl) fun _ => .crystalPlatinum ht)
    fun _ => Spec.same hd

end Spec

/-! ## The loops end -/

theorem lt_natCast {m n : ℕ} : (Double.fin m).lt (.fin n) = decide (m < n) := by
  simp [Double.lt]

theorem min_hundred (q : ℚ) : Double.min (.fin 100) (.fin q) = .fin (min 100 q) := by
  rw [Double.min, Double.lt]
  by_cases h : q < 100
  · simp [h, min_eq_right h.le]
  · simp [h, min_eq_left (not_lt.mp h)]

theorem min_hundred_natCast (m : ℕ) : Double.min (.fin 100) (.fin m) = .fin (min 100 m : ℕ) := by
  rw [min_hundred, Nat.cast_min, Nat.cast_ofNat]

theorem stackLoop_returns (sc : Scene P) (k : Coin) (fuel m : ℕ) (load : Double × Double) (hm : m ≤ 2 ^ 53)
    (h : m + 100 ≤ 100 * fuel) : ∃ r, stackLoop sc k fuel (.fin m) load = some r := by
  induction fuel generalizing m load with
  | zero => omega
  | succ fuel ih =>
    have hzero : (Double.fin 0).lt (.fin m) = decide (0 < m) := by simp [Double.lt]
    unfold stackLoop
    rw [hzero]
    by_cases h0 : 0 < m
    · simp only [h0, decide_true, if_true]
      rw [min_hundred_natCast, Double.sub_natCast hm (Nat.min_le_right 100 m)]
      exact ih _ _ (by omega) (by omega)
    · exact ⟨load, by simp [h0]⟩

theorem floor_div_natCast {a b : ℕ} (ha : a < 2 ^ 32) (hb : 0 < b) (hb' : b < 2 ^ 20) :
    ((Double.fin a).div (.fin b)).floor = .fin (a / b : ℕ) := by
  have h := (Double.div_ofNat ha hb hb').1
  rwa [Double.ofNat_eq (by omega), Double.ofNat_eq (by omega)] at h

theorem mul_natCast {m n : ℕ} (h : m * n ≤ 2 ^ 53) : (Double.fin m).mul (.fin n) = .fin (m * n : ℕ) := by
  rw [← Double.rnd_natCast h]
  simp [Double.mul]

theorem mul_hundred {n : ℕ} (h : n * 100 ≤ 2 ^ 53) : (Double.fin n).mul (.fin 100) = .fin (n * 100 : ℕ) :=
  mul_natCast h

theorem rest_natCast {amount w : ℕ} (h : amount < 2 ^ 32) :
    (Double.fin amount).sub ((Double.fin (amount / w : ℕ)).mul (.fin w)) = .fin (amount % w : ℕ) := by
  have hle : amount / w * w ≤ amount := Nat.div_mul_le_self amount w
  rw [mul_natCast (by omega), Double.sub_natCast (by omega) hle]
  congr 2
  have := Nat.div_add_mod' amount w
  omega

theorem takeCoins_returns (sc : Scene P) (k : Coin) {amount w : ℕ}
    (h : amount < 2 ^ 32) (hw : 0 < w) (hw' : w < 2 ^ 20) (load : Double × Double) :
    ∃ load', takeCoins sc k (.fin w) (.fin amount) load = some (.fin (amount % w : ℕ), load') := by
  have hle : amount / w ≤ amount := Nat.div_le_self amount w
  obtain ⟨r, hr⟩ := stackLoop_returns sc k loopFuel (amount / w) load (by omega)
    (by unfold loopFuel; omega)
  have hzero : (Double.fin 0).lt (.fin (amount / w : ℕ)) = decide (0 < amount / w) := by
    exact_mod_cast lt_natCast (m := 0)
  unfold takeCoins
  dsimp only
  rw [floor_div_natCast h hw hw', hzero, hr, rest_natCast h]
  by_cases h0 : 0 < amount / w
  · exact ⟨r, by simp [h0]⟩
  · have hlt : amount < w := (Nat.div_eq_zero_iff_lt hw).mp (Nat.eq_zero_of_not_pos h0)
    exact ⟨load, by simp [h0, Nat.mod_eq_of_lt hlt]⟩

theorem canCarryMoney_returns (sc : Scene P) {n : ℕ} (hn : n < 2 ^ 32) :
    ∃ fits, canCarryMoney sc (.fin n) = some fits := by
  have hmod : n % 10000 < 2 ^ 32 := (Nat.mod_le n 10000).trans_lt hn
  obtain ⟨l1, h1⟩ := takeCoins_returns sc .crystal (w := 10000) hn (by norm_num) (by norm_num)
    (.fin 0, .fin 0)
  obtain ⟨l2, h2⟩ := takeCoins_returns sc .platinum (w := 100) hmod (by norm_num) (by norm_num) l1
  obtain ⟨l3, h3⟩ := stackLoop_returns sc .gold loopFuel (n % 10000 % 100) l2 (by omega)
    (by unfold loopFuel; omega)
  simp only [Nat.cast_ofNat] at h1 h2
  unfold canCarryMoney
  split
  · exact ⟨true, rfl⟩
  · simp only [h1, h2, h3, Option.bind_eq_bind, Option.bind_some, Option.pure_def]
    split
    · exact ⟨_, rfl⟩
    · cases sc.emptySlots <;> exact ⟨_, rfl⟩

/-! ## Gold is neither made nor lost -/

/-- All coins that lie somewhere, and all balances. -/
noncomputable def total [Fintype P] (s : BankState P) : ℕ := s.world.worth Set.univ + ∑ p, s.bankBalance p

structure Inv (rules : Rules) (s : BankState P) : Prop where
  orderly : World.Orderly rules s.world
  ready : ∀ p, (s.dialog p).Ready

/-- The numbers that no conversion on the way to the C++ functions changes, by
the topic a yes is said in. -/
def small [DecidableEq P] (p : P) (d : Dialog P) (c : Double) : Bool :=
  match d.topic with
  | .withdrawGold => c.lt (.fin (2 ^ 32))
  | .transferPlayerConsent =>
    c.lt (.fin (10 ^ 14)) && d.transfer.all fun target => target.guid ≠ p
  | .changeGoldPlatinumConsent | .changePlatinumCrystalConsent => c.le (.fin (2 ^ 24))
  | .changePlatinumGoldConsent | .changeCrystalPlatinumConsent => c.le (.fin (2 ^ 24 / 100))
  | _ => true

section Settling
variable (rules : Rules) (maxItems : ℕ → ℕ)

/-- The coins that are paid out on a yes settle, by the topic it is said in: the change of
a deposit, a withdrawal, the coins that others are changed into. -/
def settles (sc : Scene P) (w : World) (balance : ℕ) (topic : Topic) (c : Double) : Bool :=
  let exchanged give removed take added :=
    w.coinsSettle rules maxItems sc.trades give removed take added sc.player
  let heavy := !(getMoneyWeight sc c).le sc.getFreeCapacity
  match topic with
  | .depositConsent =>
    World.changeSettles rules maxItems sc.trades sc.player (w.moneyMap sc.player) w c.toUInt64
  | .withdrawGold =>
    canCarryMoney sc c ≠ some true || (Double.ofNat balance).lt c ||
      w.moneySettles rules maxItems sc.trades sc.player c.toUInt64
  | .changeGoldPlatinumConsent => exchanged .gold (c.mul (.fin 100)) .platinum c
  | .changePlatinumGoldConsent => heavy || exchanged .platinum c .gold (c.mul (.fin 100))
  | .changePlatinumCrystalConsent => exchanged .platinum (c.mul (.fin 100)) .crystal c
  | .changeCrystalPlatinumConsent => heavy || exchanged .crystal c .platinum (c.mul (.fin 100))
  | _ => true

/-- Numbers are small and coins settle. What else happens makes and takes no coins. -/
def Exact [DecidableEq P] (s : BankState P) : Event P → Prop
  | .say sc p msg => msgcontains msg "yes" = true → ∀ c ∈ (s.dialog p).count, small p (s.dialog p) c = true ∧
      settles rules maxItems sc s.world (s.bankBalance p) (s.dialog p).topic c = true
  | .meanwhile world => World.Orderly rules world ∧ world.worth Set.univ = s.world.worth Set.univ
  | _ => True

instance [DecidableEq P] (s : BankState P) (sc : Scene P) (p : P) (msg : String) :
    Decidable (Exact rules maxItems s (.say sc p msg)) :=
  inferInstanceAs (Decidable (msgcontains msg "yes" = true → ∀ c ∈ (s.dialog p).count, small p (s.dialog p) c = true ∧
      settles rules maxItems sc s.world (s.bankBalance p) (s.dialog p).topic c = true))

end Settling

theorem Positive.of_lt {c : Double} {b : ℚ} (h : Positive c) (hlt : c.lt (.fin b) = true) :
    ∃ n : ℕ, 0 < n ∧ c = .fin n ∧ (n : ℚ) < b := by
  rcases h with rfl | ⟨n, hn, rfl⟩
  · simp [Double.lt] at hlt
  · exact ⟨n, hn, rfl, by simpa [Double.lt] using hlt⟩

theorem Positive.of_le {c : Double} {b : ℚ} (h : Positive c) (hle : c.le (.fin b) = true) :
    ∃ n : ℕ, 0 < n ∧ c = .fin n ∧ (n : ℚ) ≤ b := by
  rcases h with rfl | ⟨n, hn, rfl⟩
  · simp [Double.le] at hle
  · exact ⟨n, hn, rfl, by simpa [Double.le] using hle⟩

section Deals
variable [Fintype P] [DecidableEq P] {rules : Rules} {maxItems : ℕ → ℕ} {s : BankState P} {sc : Scene P} {p : P}

omit [DecidableEq P] in
theorem holdings_le (s : BankState P) (p : P) : s.world.worth Set.univ + s.bankBalance p ≤ total s :=
  Nat.add_le_add_left (Finset.single_le_sum (f := s.bankBalance) (by simp) (Finset.mem_univ p)) _

omit [Fintype P] in
theorem setBankBalance_natCast (bank : P → ℕ) (p : P) {n : ℕ} (h : n < 2 ^ 63) :
    setBankBalance bank p (.fin n) = Function.update bank p n := by
  unfold setBankBalance
  rw [Double.toInt64_natCast h, if_neg (by omega), Int.toNat_natCast]

/-- A deal keeps the gold and the order of the world. -/
def Fair (rules : Rules) (s t : BankState P) : Prop := total t = total s ∧ World.Orderly rules t.world

omit [DecidableEq P] in
theorem Fair.same (hs : Inv rules s) : Fair rules s s := ⟨rfl, hs.orderly⟩

theorem Fair.own {w : World} {b : ℕ} {d : P → Dialog P} (hw : World.Orderly rules w)
    (h : w.worth Set.univ + b = s.world.worth Set.univ + s.bankBalance p) :
    Fair rules s ⟨w, Function.update s.bankBalance p b, d⟩ := by
  have hbank := Table.sum_function_update s.bankBalance p b id
  refine ⟨?_, hw⟩
  simp only [id] at hbank
  simp only [total]
  omega

theorem deposit_fair (hsane : rules.Sane) (hcoined : rules.Coined) (hs : Inv rules s) (h53 : total s ≤ 2 ^ 53)
    {n : ℕ} (hpos : 0 < n) (hn : n ≤ s.world.getMoney sc.player)
    (hsettles : settles rules maxItems sc s.world (s.bankBalance p) .depositConsent (.fin n) = true) :
    ∃ t, perform rules maxItems sc s p (.deposit (.fin n)) = some t ∧ Fair rules s t := by
  have hhold := holdings_le s p
  have hcarried : s.world.getMoney sc.player ≤ s.world.worth Set.univ :=
    World.getMoney_le hcoined hs.orderly.toTidy (Set.mem_univ _)
  have hadd : (Double.ofNat (s.bankBalance p)).add (.fin n) = .fin (s.bankBalance p + n : ℕ) := by
    rw [Double.ofNat_eq (by omega), Double.add_natCast, Double.ofNat_eq (by omega)]
  have h64 := Double.toUInt64_natCast (show n < 2 ^ 63 by omega)
  simp only [settles, h64] at hsettles
  obtain ⟨w, hremove, hw, hpaid⟩ :=
    World.removeMoney_paid maxItems sc.trades hsane hcoined hs.orderly hpos.ne' hn hsettles
  have hall := hpaid Set.univ (Set.subset_univ _)
  simp only [perform, h64, hremove, hadd, Option.map_some, Bool.not_true, Bool.false_eq_true, if_false,
    setBankBalance_natCast s.bankBalance p (show s.bankBalance p + n < 2 ^ 63 by omega)]
  exact ⟨_, rfl, Fair.own hw (by omega)⟩

theorem withdraw_fair (hsane : rules.Sane) (hcoined : rules.Coined) (hs : Inv rules s) (h53 : total s ≤ 2 ^ 53)
    {n : ℕ} (hn : n < 2 ^ 32) (hcarry : canCarryMoney sc (.fin n) = some true)
    (hsettles : settles rules maxItems sc s.world (s.bankBalance p) .withdrawGold (.fin n) = true) :
    ∃ t, perform rules maxItems sc s p (.withdraw (.fin n)) = some t ∧ Fair rules s t := by
  have hhold := holdings_le s p
  have h64 := Double.toUInt64_natCast (show n < 2 ^ 63 by omega)
  simp only [perform, Double.ofNat_eq (show s.bankBalance p ≤ 2 ^ 53 by omega), lt_natCast, h64]
  by_cases hlt : s.bankBalance p < n
  · simp only [hlt, decide_true, if_true]
    exact ⟨s, rfl, Fair.same hs⟩
  · have hsub := Double.sub_natCast (show s.bankBalance p ≤ 2 ^ 53 by omega) (not_lt.mp hlt)
    simp only [settles, h64, hcarry, Double.ofNat_eq (show s.bankBalance p ≤ 2 ^ 53 by omega), lt_natCast, hlt,
      ne_eq, not_true_eq_false, decide_false, Bool.false_or] at hsettles
    obtain ⟨w, hadd, hw, -, hgiven⟩ :=
      World.addMoney_paid maxItems sc.trades hsane hcoined hs.orderly (show n < 4294970000 by omega) hsettles
    have hall := hgiven Set.univ (Set.subset_univ _)
    simp only [hlt, decide_false, Bool.false_eq_true, if_false, hsub, hadd, Option.map_some,
      setBankBalance_natCast s.bankBalance p (show s.bankBalance p - n < 2 ^ 63 by omega)]
    exact ⟨_, rfl, Fair.own hw (by omega)⟩

omit [DecidableEq P] in
theorem balances_le (s : BankState P) {p t : P} (h : t ≠ p) : s.bankBalance t + s.bankBalance p ≤ total s := by
  classical
  have hpair : s.bankBalance t + s.bankBalance p ≤ ∑ q, s.bankBalance q := by
    rw [← Finset.sum_pair h]
    exact Finset.sum_le_sum_of_subset (Finset.subset_univ _)
  exact hpair.trans (Nat.le_add_left _ _)

theorem sqlAdd_natCast {balance n : ℕ} (hn : (n : ℚ) < 10 ^ 14) (h : balance + n < 2 ^ 64) :
    sqlAdd balance (.fin n) = balance + n := by
  simp only [sqlAdd, Nat.abs_cast, hn, if_true, Int.floor_natCast, Int.toNat_natCast]
  exact if_neg (by omega)

theorem transfer_fair (hs : Inv rules s) (h53 : total s ≤ 2 ^ 53) {n : ℕ} (hn : (n : ℚ) < 10 ^ 14)
    (hle : n ≤ s.bankBalance p) {target : Info P} (ht : target.guid ≠ p) :
    ∃ t, perform rules maxItems sc s p (.transfer target (.fin n)) = some t ∧ Fair rules s t := by
  have htwo := balances_le s ht
  have hadd : (Double.ofNat (s.bankBalance target.guid)).add (.fin n) = .fin (s.bankBalance target.guid + n : ℕ) := by
    rw [Double.ofNat_eq (by omega), Double.add_natCast, Double.ofNat_eq (by omega)]
  -- online or offline, the receiver gets the same
  have hbank : (if sc.online target.guid ∨ target.guid = p then
        setBankBalance s.bankBalance target.guid ((Double.ofNat (s.bankBalance target.guid)).add (.fin n))
      else Function.update s.bankBalance target.guid (sqlAdd (s.bankBalance target.guid) (.fin n))) =
      Function.update s.bankBalance target.guid (s.bankBalance target.guid + n) := by
    rw [hadd, setBankBalance_natCast _ _ (by omega), sqlAdd_natCast hn (by omega), ite_self]
  have hp : Function.update s.bankBalance target.guid (s.bankBalance target.guid + n) p =
      s.bankBalance p := Function.update_of_ne ht.symm _ _
  have hsub := Double.sub_natCast (show s.bankBalance p ≤ 2 ^ 53 by omega) hle
  simp only [perform, hbank, hp, Double.ofNat_eq (show s.bankBalance p ≤ 2 ^ 53 by omega), hsub,
    setBankBalance_natCast _ p (show s.bankBalance p - n < 2 ^ 63 by omega)]
  refine ⟨_, rfl, ?_, hs.orderly⟩
  have h1 := Table.sum_function_update s.bankBalance target.guid (s.bankBalance target.guid + n) id
  have h2 := Table.sum_function_update (Function.update s.bankBalance target.guid (s.bankBalance target.guid + n)) p
    (s.bankBalance p - n) id
  simp only [id] at h1 h2
  rw [hp] at h2
  simp only [total]
  omega

/-- Coins are changed into as many as they are worth. -/
theorem change_fair (hsane : rules.Sane) (hcoined : rules.Coined) (hs : Inv rules s) {give take : Coin} {r a : ℕ}
    (hr : r < 2 ^ 32) (ha : a ≤ 2 ^ 24) (hworth : r * give.worth = a * take.worth)
    (hsettles : s.world.coinsSettle rules maxItems sc.trades give (.fin r) take (.fin a) sc.player = true) :
    ∃ t, perform rules maxItems sc s p (.change give (.fin r) take (.fin a)) = some t ∧ Fair rules s t := by
  have hremove : s.world.removeItem rules sc.trades give (.fin r) sc.player =
      s.world.removeItemOfType rules sc.trades give.id r sc.player := by
    rw [World.removeItem, Double.toUInt32_natCast (by omega), Nat.mod_eq_of_lt hr]
  have hstacks := Double.ceil_floatDiv_hundred ha
  have ha31 : a < 2 ^ 31 := by omega
  rcases World.removeItemOfType_spec sc.trades hsane hcoined give hs.orderly
    (Set.mem_univ (Cylinder.player sc.player)) r with
    hnone | ⟨w, hsome, hw, hpaid, -⟩
  · simp only [perform, hremove, hnone, Bool.not_false, if_true]
    exact ⟨_, rfl, Fair.same hs⟩
  · obtain ⟨w', hadd, hw', m, hgiven, hall⟩ := World.addItem_spec maxItems sc.trades hsane hcoined take hw
      (Set.subset_univ (w.home sc.player)) ha31 hstacks
    simp only [World.coinsSettle, hremove, hsome, Double.toInt32_natCast ha31, hstacks, Int.toNat_natCast,
      Bool.not_true, Bool.false_or] at hsettles
    rw [hall hsettles] at hgiven
    simp only [perform, hremove, hsome, hadd, Bool.not_true, Bool.false_eq_true, if_false, Option.map_some]
    have hfair := Fair.own (s := s) (p := p) (b := s.bankBalance p) (d := s.dialog) hw' (by omega)
    rw [Function.update_eq_self] at hfair
    exact ⟨_, rfl, hfair⟩

theorem perform_fair (hsane : rules.Sane) (hcoined : rules.Coined) (hs : Inv rules s) (h53 : total s ≤ 2 ^ 53)
    {c : Double} (hpos : Positive c) (hsmall : small p (s.dialog p) c = true)
    (hsettles : settles rules maxItems sc s.world (s.bankBalance p) (s.dialog p).topic c = true) {deal : Deal P}
    (h : Makes sc (s.world.getMoney sc.player) (s.bankBalance p) (s.dialog p) c deal) :
    ∃ t, perform rules maxItems sc s p deal = some t ∧ Fair rules s t := by
  have hhold := holdings_le s p
  have hcarried : s.world.getMoney sc.player ≤ s.world.worth Set.univ :=
    World.getMoney_le hcoined hs.orderly.toTidy (Set.mem_univ _)
  unfold small at hsmall
  cases h with
  | deposit ht hle =>
    rw [Double.ofNat_eq (by omega)] at hle
    obtain ⟨n, hn0, rfl, hn⟩ := hpos.of_le hle
    rw [ht] at hsettles
    exact deposit_fair hsane hcoined hs h53 hn0 (by exact_mod_cast hn) hsettles
  | withdraw ht hcarry =>
    rw [ht] at hsmall hsettles
    obtain ⟨n, -, rfl, hn⟩ := hpos.of_lt hsmall
    exact withdraw_fair hsane hcoined hs h53 (by exact_mod_cast hn) hcarry hsettles
  | transfer ht hle target htarget =>
    rw [ht] at hsmall
    simp only [htarget, Option.all_some, Bool.and_eq_true, decide_eq_true_eq] at hsmall
    obtain ⟨n, -, rfl, hn⟩ := hpos.of_lt hsmall.1
    rw [Double.ofNat_eq (by omega), lt_natCast, decide_eq_false_iff_not, not_lt] at hle
    exact transfer_fair hs h53 hn hle hsmall.2
  | goldPlatinum ht | platinumCrystal ht =>
    rw [ht] at hsmall hsettles
    obtain ⟨n, -, rfl, hn⟩ := hpos.of_le hsmall
    have hnat : n ≤ 2 ^ 24 := by exact_mod_cast hn
    rw [mul_hundred (by omega)]
    simp only [settles, mul_hundred (show n * 100 ≤ 2 ^ 53 by omega)] at hsettles
    exact change_fair hsane hcoined hs (by omega) hnat (by simp only [Coin.worth]; omega) hsettles
  | platinumGold ht hfits | crystalPlatinum ht hfits =>
    rw [ht] at hsmall hsettles
    obtain ⟨n, -, rfl, hn⟩ := hpos.of_le hsmall
    have hnat : n * 100 ≤ 2 ^ 24 := by
      rw [le_div_iff₀ (by norm_num)] at hn
      exact_mod_cast hn
    rw [mul_hundred (by omega)]
    simp only [settles, hfits, mul_hundred (show n * 100 ≤ 2 ^ 53 by omega), Bool.not_true, Bool.false_or] at hsettles
    exact change_fair hsane hcoined hs (by omega) hnat (by simp only [Coin.worth]; omega) hsettles

omit [Fintype P] in
theorem ready_update (hs : Inv rules s) {d : Dialog P} (hd : d.Ready) (p p' : P) :
    (Function.update s.dialog p d p').Ready := by
  rw [Function.update_apply]
  split
  · exact hd
  · exact hs.ready p'

omit [Fintype P] in
theorem answer_returns (hs : Inv rules s) {msg : String} (he : Exact rules maxItems s (.say sc p msg)) :
    s.answer sc p msg ≠ none := by
  intro hnone
  have hspec := callback_spec sc (s.world.getMoney sc.player) (s.bankBalance p) msg (hs.ready p)
  rw [show creatureSayCallback _ _ _ _ _ = none from hnone] at hspec
  obtain ⟨hyes, ht, c, hc, hpos, hcarry⟩ := hspec
  have hsmall := (he hyes c hc).1
  unfold small at hsmall
  rw [ht] at hsmall
  obtain ⟨n, -, rfl, hn⟩ := hpos.of_lt hsmall
  obtain ⟨fits, hfits⟩ := canCarryMoney_returns sc (n := n) (by exact_mod_cast hn)
  rw [hfits] at hcarry
  cases hcarry

theorem step_fair (hsane : rules.Sane) (hcoined : rules.Coined) (hs : Inv rules s) (h53 : total s ≤ 2 ^ 53)
    {e : Event P} (he : Exact rules maxItems s e) :
    total (step rules maxItems s e) = total s ∧ Inv rules (step rules maxItems s e) := by
  cases e with
  | greet p =>
    simp only [step]
    split
    · exact ⟨rfl, hs⟩
    · exact ⟨rfl, hs.orderly, ready_update hs (fun h => by cases h) p⟩
  | farewell p => exact ⟨rfl, hs.orderly, ready_update hs (fun h => by cases h) p⟩
  | meanwhile world =>
    refine ⟨?_, he.1, hs.ready⟩
    simp only [step, total, he.2]
  | say sc p msg =>
    have hspec := callback_spec sc (s.world.getMoney sc.player) (s.bankBalance p) msg (hs.ready p)
    cases ha : s.answer sc p msg with
    | none => exact absurd ha (answer_returns hs he)
    | some r =>
      obtain ⟨d, deal⟩ := r
      rw [show creatureSayCallback _ _ _ _ _ = some (d, deal) from ha] at hspec
      obtain ⟨t, ht, hfair⟩ : ∃ t, perform rules maxItems sc s p deal = some t ∧ Fair rules s t := by
        rcases hspec.2 with rfl | ⟨hyes, c, hc, hpos, hmakes⟩
        · exact ⟨s, rfl, Fair.same hs⟩
        · exact perform_fair hsane hcoined hs h53 hpos (he hyes c hc).1 (he hyes c hc).2 hmakes
      simp only [step, ha, ht]
      exact ⟨hfair.1, hfair.2, ready_update hs hspec.1 p⟩

theorem run_fair (hsane : rules.Sane) (hcoined : rules.Coined) (hs : Inv rules s) (h53 : total s ≤ 2 ^ 53)
    {es : List (Event P)} (hexact : Along (step rules maxItems) (Exact rules maxItems) s es) :
    ∀ pre, pre <+: es → total (run (step rules maxItems) s pre) = total s ∧
      Inv rules (run (step rules maxItems) s pre) := by
  have hstep : ∀ (t : BankState P) (e : Event P), total t = total s ∧ Inv rules t → Exact rules maxItems t e →
      total (step rules maxItems t e) = total s ∧ Inv rules (step rules maxItems t e) := by
    rintro t e ⟨htotal, hinv⟩ he
    obtain ⟨h1, h2⟩ := step_fair hsane hcoined hinv (htotal.trans_le h53) he
    exact ⟨h1.trans htotal, h2⟩
  exact inv_reached hstep ⟨rfl, hs⟩ hexact

end Deals

/-- In every run whose numbers are small enough where they are used and whose coins settle,
every message is answered and the gold in coins and balances is that of the first state. -/
theorem bank_conserves [Fintype P] [DecidableEq P] {rules : Rules} (maxItems : ℕ → ℕ) (hsane : rules.Sane)
    (hcoined : rules.Coined) (s : BankState P) (es : List (Event P)) (hs : Inv rules s) (h53 : total s ≤ 2 ^ 53)
    (hexact : Along (step rules maxItems) (Exact rules maxItems) s es) :
    (∀ pre, pre <+: es → total (run (step rules maxItems) s pre) = total s) ∧
    ∀ pre sc p msg, pre ++ [.say sc p msg] <+: es → (run (step rules maxItems) s pre).answer sc p msg ≠ none := by
  have hreach := run_fair hsane hcoined hs h53 hexact
  refine ⟨fun pre hpre => (hreach pre hpre).1, fun pre sc p msg hpre => ?_⟩
  have hinv := (hreach pre ((List.prefix_append pre _).trans hpre)).2
  obtain ⟨post, rfl⟩ := hpre
  exact answer_returns hinv hexact.left.last

local instance customerCount : NeZero 2 := ⟨by decide⟩

/-- Ann's bank; Bob has an account and is offline. -/
def town : Scene (Fin 2) where
  player := 0
  getFreeCapacity := .fin 40000
  emptySlots := some (.fin 20)
  weight := fun _ => 10
  getName := "Ann"
  online := fun p => p = 0
  getPlayerDatabaseInfo := fun name => if name = "Bob" then some ⟨1, "Bob", 1⟩ else none

/-- Ann has a platinum coin in her backpack. -/
def opening : BankState (Fin 2) where
  world := World.purse none
  bankBalance := fun p => if p = 0 then 500 else 0
  dialog := fun _ => {}

theorem opening_inv : Inv World.bagsAndCoins opening :=
  ⟨World.purse_orderly none, fun _ h => by cases h⟩

theorem opening_total : total opening ≤ 2 ^ 53 := by
  have hworth : opening.world.worth Set.univ ≤ 100 := World.wallet_worth_le Set.univ
  have hbank : ∑ p, opening.bankBalance p = 500 := by decide
  unfold total
  omega

/-- A deposit that is given change, a transfer and a withdrawal. -/
def visit : List (Event (Fin 2)) :=
  [.greet 0, .say town 0 "deposit 30", .say town 0 "yes", .say town 0 "transfer 510 to Bob", .say town 0 "yes",
    .say town 0 "withdraw 15", .say town 0 "yes"]

theorem bank_conserves_visit : (run (step World.bagsAndCoins fun _ => 20) opening visit).world.getMoney 0 = 85 ∧
    (run (step World.bagsAndCoins fun _ => 20) opening visit).bankBalance 1 = 510 ∧
    total (run (step World.bagsAndCoins fun _ => 20) opening visit) = total opening :=
  ⟨by decide +kernel, by decide +kernel,
    (bank_conserves (fun _ => 20) World.bagsAndCoins_sane World.bagsAndCoins_coined opening visit opening_inv
      opening_total ⟨trivial, by decide +kernel, by decide +kernel, by decide +kernel, by decide +kernel,
        by decide +kernel, by decide +kernel, trivial⟩).1 visit List.prefix_rfl⟩

/-- The number a hundred times which is four, modulo `2 ^ 32`. The coin is changed into gold before. -/
def swindle : List (Event (Fin 2)) :=
  [.greet 0, .say town 0 "change platinum", .say town 0 "gold", .say town 0 "1", .say town 0 "yes",
    .say town 0 "change gold", .say town 0 "42949673"]

theorem step_change [DecidableEq P] {rules : Rules} {maxItems : ℕ → ℕ} {s : BankState P} {sc : Scene P} {p : P}
    {msg : String} {d : Dialog P} {give take : Coin} {removed added : Double} {w w' : World}
    (ha : s.answer sc p msg = some (d, .change give removed take added))
    (hr : s.world.removeItem rules sc.trades give removed sc.player = (true, w))
    (hadd : w.addItem rules maxItems sc.trades take added sc.player = some w') :
    step rules maxItems s (.say sc p msg) = ⟨w', s.bankBalance, Function.update s.dialog p d⟩ := by
  simp only [step, ha, perform, hr, hadd, Bool.not_true, Bool.false_eq_true, if_false, Option.map_some]

/-- Four gold coins are taken and platinum coins are given for them. -/
theorem swindle_makes_gold :
    total (step World.bagsAndCoins (fun _ => 20) (run (step World.bagsAndCoins fun _ => 20) opening swindle)
      (.say town 0 "yes")) ≠ total opening := by
  have hexact : Along (step World.bagsAndCoins fun _ => 20) (Exact World.bagsAndCoins fun _ => 20) opening swindle :=
    ⟨trivial, by decide +kernel, by decide +kernel, by decide +kernel, by decide +kernel, by decide +kernel,
      by decide +kernel, trivial⟩
  obtain ⟨htotal, hinv⟩ := run_fair World.bagsAndCoins_sane World.bagsAndCoins_coined opening_inv opening_total
    hexact swindle List.prefix_rfl
  generalize hs : run (step World.bagsAndCoins fun _ => 20) opening swindle = s at htotal hinv ⊢
  have hanswer : s.answer town 0 "yes" = some ({ focused := true, count := some (.fin 42949673) },
      .change .gold (.fin 4294967300) .platinum (.fin (42949673 : ℕ))) := by
    rw [← hs]
    decide +kernel
  have hsome : (s.world.removeItemOfType World.bagsAndCoins {} Coin.gold.id 4 0).1 = true := by
    rw [← hs]
    decide +kernel
  have hfour : Double.toUInt32 (.fin 4294967300) = 4 := by decide +kernel
  rcases World.removeItemOfType_spec {} World.bagsAndCoins_sane World.bagsAndCoins_coined .gold hinv.orderly
    (Set.mem_univ (Cylinder.player 0)) 4 with hnone | ⟨w, hremove, hw, hpaid, -⟩
  · rw [hnone] at hsome
    cases hsome
  obtain ⟨w', hadd, -, m, hgiven, -⟩ := World.addItem_spec (fun _ => 20) {} World.bagsAndCoins_sane
    World.bagsAndCoins_coined .platinum hw (Set.subset_univ (w.home 0)) (show 42949673 < 2 ^ 31 by norm_num)
    (by decide +kernel)
  rw [← htotal, step_change hanswer (w := w) (by rw [World.removeItem, hfour]; exact hremove) hadd]
  simp only [total, Coin.worth] at hpaid hgiven ⊢
  omega

end ForgottenServer.Npc.Banker
