import ForgottenServer.Lib.Run
import Mathlib.Data.List.Count
import Mathlib.Logic.Function.Basic
import Mathlib.Tactic.Common

/-! # Sessions and players

`ProtocolGame::login`, `connect` and `release` decide which session a player belongs
to. A second login throws the first one out and takes the player over a second later.
The three run on the dispatcher, which works off its tasks in their order, those of the
scheduler first; connections are closed by any thread, and their objects live a while longer. Players stand for
their addresses and their ids, sessions for their addresses. -/
namespace ForgottenServer.Login.Sessions
open ForgottenServer.Lib.Run

inductive GameState
  | startup | init | normal | closed | shutdown | closing | maintain
  deriving DecidableEq, Repr

structure Config where
  allowClones : Bool
  replaceKickOnLogin : Bool
  onePlayerOnAccount : Bool
  maxPlayers : ℕ

def accountTypeGamemaster : ℕ := 4

structure BanInfo where
  bannedBy : String
  reason : String
  expiresAt : ℤ

/-- What `preloadPlayer` finds. -/
structure Character where
  account : ℕ := 0
  accountType : ℕ := 1
  canAlwaysLogin : Bool := false
  cannotBeBanned : Bool := false

/-- What the calls in `login` answer. -/
structure Answers where
  character : Option Character
  namelocked : Bool
  gameState : GameState
  banInfo : Option BanInfo
  loads : Bool
  /-- there is room at the login position or at the temple -/
  placed : Bool

/-- A `ProtocolGame` and its connection. -/
structure Session where
  /-- the first message has come, and `login` was given to the dispatcher -/
  received : Bool := false
  player : Option ℕ := none
  eventConnect : Bool := false
  acceptPackets : Bool := false
  /-- it is one of `bufferedProtocols` -/
  autosend : Bool := false
  closed : Bool := false
  /-- the object of the connection is gone -/
  expired : Bool := false
  released : Bool := false
  /-- what `disconnectClient` told the client -/
  told : List String := []

structure Player where
  name : String := ""
  account : ℕ := 0
  accountType : ℕ := 1
  client : Option ℕ := none
  /-- it is one of `players` of the game -/
  online : Bool := false
  isConnecting : Bool := false
  /-- the references that sessions hold -/
  held : ℕ := 0

inductive Task
  | login (p : ℕ) (name : String)
  | connect (p x : ℕ)
  | release (p : ℕ)
  deriving DecidableEq, Repr

structure Game where
  sessions : ℕ → Session := fun _ => {}
  players : ℕ → Player := fun _ => {}
  /-- the players made so far -/
  created : ℕ := 0
  mappedPlayerNames : String → Option ℕ := fun _ => none
  /-- the tasks of the dispatcher -/
  tasks : List Task := []
  /-- the calls of `connect` the scheduler waits with -/
  scheduled : List (ℕ × ℕ) := []

namespace Game

def session (g : Game) (p : ℕ) (f : Session → Session) : Game :=
  { g with sessions := Function.update g.sessions p (f (g.sessions p)) }

def player (g : Game) (x : ℕ) (f : Player → Player) : Game :=
  { g with players := Function.update g.players x (f (g.players x)) }

def getPlayerByName (g : Game) (s : String) : Option ℕ :=
  if s = "" then none else g.mappedPlayerNames s.toLower

def getPlayersOnline (g : Game) : ℕ := (List.range g.created).countP fun x => (g.players x).online

def hasPlayerOfAccount (g : Game) (account : ℕ) : Bool :=
  (List.range g.created).any fun x => (g.players x).online && (g.players x).account = account

def addPlayer (g : Game) (x : ℕ) : Game :=
  { g.player x fun y => { y with online := true } with
    mappedPlayerNames := Function.update g.mappedPlayerNames (g.players x).name.toLower (some x) }

def removePlayer (g : Game) (x : ℕ) : Game :=
  if (g.players x).online then
    { g.player x fun y => { y with online := false } with
      mappedPlayerNames := Function.update g.mappedPlayerNames (g.players x).name.toLower none }
  else g

/-- `Connection::close`, through the pointer of the session. -/
def close (g : Game) (p : ℕ) : Game :=
  if (g.sessions p).expired then g
  else
    { g.session p fun s => { s with closed := true } with tasks := g.tasks ++ [.release p] }

def disconnectClient (g : Game) (p : ℕ) (message : String) : Game :=
  let g := if (g.sessions p).closed then g
    else g.session p fun s => { s with told := s.told ++ [message] }
  g.close p

def release (g : Game) (p : ℕ) : Game :=
  let g := match (g.sessions p).player with
    | none => g
    | some x =>
      if (g.players x).client = some p then
        (g.player x fun y => { y with client := none, held := y.held - 1 }).session p
          fun s => { s with player := none }
      else g
  g.session p fun s => { s with autosend := false, released := true }

/-- The end of `connect`. -/
def attach (g : Game) (p x : ℕ) : Game :=
  (g.player x fun y => { y with
    client := some p, isConnecting := false, held := y.held + 1 }).session p
      fun s => { s with player := some x, acceptPackets := true }

def connect (g : Game) (p x : ℕ) : Game :=
  let g := g.session p fun s => { s with eventConnect := false }
  if !(g.players x).online || (g.players x).client.isSome then
    g.disconnectClient p "You are already logged in."
  else if (g.sessions p).expired then g
  else g.attach p x

/-- The new player of a session that nobody knows by its name. -/
def create (g : Game) (p : ℕ) (name : String) (character : Character) : Game :=
  { (g.player g.created fun _ => {
      name
      account := character.account
      accountType := character.accountType
      client := some p
      held := 1 }).session p fun s => { s with player := some g.created } with
    created := g.created + 1 }

end Game

/-- What a banned client is told; the dates are formatted elsewhere. -/
def BanInfo.text (formatDateShort : ℤ → String) (ban : BanInfo) : String :=
  let reason := if ban.reason = "" then "(none)" else ban.reason
  if 0 < ban.expiresAt then
    "Your account has been banned until " ++ formatDateShort ban.expiresAt ++ " by " ++
      ban.bannedBy ++ ".\n\nReason specified:\n" ++ reason
  else
    "Your account has been permanently banned by " ++ ban.bannedBy ++ ".\n\nReason specified:\n" ++ reason

/-- Why a new player is not let in. -/
def refusal (cfg : Config) (formatDateShort : ℤ → String) (g : Game) (answers : Answers) : Option String :=
  match answers.character with
  | none => some "Your character could not be loaded."
  | some character =>
    let ban := if character.cannotBeBanned then none else answers.banInfo
    let ordinary := character.accountType < accountTypeGamemaster
    if answers.namelocked then some "Your character has been namelocked."
    else if answers.gameState = .closing ∧ !character.canAlwaysLogin then
      some "The game is just going down.\nPlease try again later."
    else if answers.gameState = .closed ∧ !character.canAlwaysLogin then
      some "Server is currently closed.\nPlease try again later."
    else if cfg.onePlayerOnAccount ∧ ordinary ∧ g.hasPlayerOfAccount character.account then
      some "You may only login with one character\nof your account at the same time."
    else if let some ban := ban then some (ban.text formatDateShort)
    else if 0 < cfg.maxPlayers ∧ cfg.maxPlayers ≤ g.getPlayersOnline ∧ !character.canAlwaysLogin ∧ ordinary then
      some "Too many players online. Please try again later."
    else if !answers.loads then some "Your character could not be loaded."
    else if !answers.placed then some "Temple position is wrong. Contact the administrator."
    else none

variable (cfg : Config) (formatDateShort : ℤ → String)

namespace Game

/-- `login` of a player who is not in the game. -/
def enter (g : Game) (p : ℕ) (name : String) (answers : Answers) : Game :=
  let x := g.created
  let g := g.create p name (answers.character.getD {})
  match refusal cfg formatDateShort g answers with
  | some message => g.disconnectClient p message
  | none => (g.addPlayer x).session p fun s => { s with acceptPackets := true, autosend := true }

/-- `login` of a player who is. -/
def replace (g : Game) (p x : ℕ) : Game :=
  if (g.sessions p).eventConnect || !cfg.replaceKickOnLogin then
    g.disconnectClient p "You are already logged in."
  else
    let g := match (g.players x).client with
      | none => g.connect p x
      | some c =>
        let g := ((g.close c).player x fun y => { y with isConnecting := true }).session p
          fun s => { s with eventConnect := true }
        { g with scheduled := g.scheduled ++ [(p, x)] }
    g.session p fun s => { s with autosend := true }

def login (g : Game) (p : ℕ) (name : String) (answers : Answers) : Game :=
  match if cfg.allowClones then none else g.getPlayerByName name with
  | none => g.enter cfg formatDateShort p name answers
  | some x => g.replace cfg p x

def perform (g : Game) (answers : Answers) : Task → Game
  | .login p name => g.login cfg formatDateShort p name answers
  | .connect p x => g.connect p x
  | .release p => g.release p

end Game

inductive Event
  /-- `onRecvFirstMessage`, when it lets the character through -/
  | receive (p : ℕ) (name : String)
  /-- a connection is closed, whoever does it -/
  | close (p : ℕ)
  /-- the object of a closed connection goes -/
  | expire (p : ℕ)
  /-- the scheduler gives a call of `connect` to the dispatcher, before its other tasks -/
  | timer (p x : ℕ)
  /-- the dispatcher takes its next task -/
  | dispatch (answers : Answers)
  /-- a logout, a death or a kick -/
  | removePlayer (x : ℕ)

def step (g : Game) : Event → Game
  | .receive p name =>
    if (g.sessions p).received || (g.sessions p).closed then g
    else
      { g.session p fun s => { s with received := true } with
        tasks := g.tasks ++ [.login p name] }
  | .close p => g.close p
  | .expire p =>
    if (g.sessions p).closed then g.session p fun s => { s with expired := true } else g
  | .timer p x =>
    if (p, x) ∈ g.scheduled then
      { g with scheduled := g.scheduled.erase (p, x), tasks := .connect p x :: g.tasks }
    else g
  | .dispatch answers =>
    match g.tasks with
    | [] => g
    | task :: tasks => { g with tasks }.perform cfg formatDateShort answers task
  | .removePlayer x => g.removePlayer x

/-- The task may give the session a player. -/
def Task.joins (p : ℕ) : Task → Bool
  | .login q _ => q = p
  | .connect q _ => q = p
  | .release _ => false

/-! ## What an operation writes -/

section Writes
variable {g : Game} {p q x y : ℕ} {f : Session → Session} {k : Player → Player}

@[simp] theorem session_self : (g.session p f).sessions p = f (g.sessions p) :=
  Function.update_self ..

theorem session_of_ne (h : q ≠ p) : (g.session p f).sessions q = g.sessions q :=
  Function.update_of_ne h ..

@[simp] theorem player_self : (g.player x k).players x = k (g.players x) := Function.update_self ..

theorem player_of_ne (h : y ≠ x) : (g.player x k).players y = g.players y :=
  Function.update_of_ne h ..

theorem session_field {β : Type*} (field : Session → β) (h : field (f (g.sessions p)) = field (g.sessions p)) (q : ℕ) :
    field ((g.session p f).sessions q) = field (g.sessions q) := by
  by_cases hq : q = p
  · rw [hq, session_self, h]
  · rw [session_of_ne hq]

theorem player_field {β : Type*} (field : Player → β) (h : field (k (g.players x)) = field (g.players x)) (y : ℕ) :
    field ((g.player x k).players y) = field (g.players y) := by
  by_cases hy : y = x
  · rw [hy, player_self, h]
  · rw [player_of_ne hy]

end Writes

end ForgottenServer.Login.Sessions
