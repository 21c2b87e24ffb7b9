import ForgottenServer.Lib.Run
import ForgottenServer.Login.Authentication

/-! # The two ports

The login port takes a password and answers with the characters of the account. The
game port takes the names of an account and of a character. Nothing that the first
has found out is known to the second. -/
namespace ForgottenServer.Login
open ForgottenServer.Lib.Run ForgottenServer.Lib.Numerals ForgottenServer.Lib.Wire

inductive GameState
  | startup | init | normal | closed | shutdown | closing | maintain
  deriving DecidableEq

inductive OperatingSystem
  | none | linux | windows | flash | otclientLinux | otclientWindows | otclientMac
  deriving DecidableEq

/-- A value that is not known is none. -/
def OperatingSystem.ofRaw (raw : UInt16) : OperatingSystem :=
  if raw = 1 then linux
  else if raw = 2 then windows
  else if raw = 3 then flash
  else if raw = 10 then otclientLinux
  else if raw = 11 then otclientWindows
  else if raw = 12 then otclientMac
  else none

def CLIENT_VERSION_MIN : UInt16 := 860

def CLIENT_VERSION_MAX : UInt16 := 862

def CLIENT_VERSION_STR : String := "8.6"

structure BanInfo where
  bannedBy : String
  reason : String
  expiresAt : ℤ

/-- What the getters of a first message on the login port return, and if it decrypts. -/
structure LoginMessage where
  version : UInt16
  decrypts : Bool
  accountName : Text
  password : Text

/-- The same on the game port. There is no password in it, and no token. -/
structure GameMessage where
  operatingSystem : UInt16
  version : UInt16
  decrypts : Bool
  accountName : Text
  characterName : Text
  timeStamp : UInt32
  randNumber : UInt8

/-- What a connection to the game port is opened with. -/
structure Challenge where
  timestamp : UInt32
  random : UInt8

/-- How a first message is answered. -/
inductive Answer (α : Type)
  | disconnect
  | disconnectClient (message : String)
  | addTask (task : α)

/-- The arguments of `ProtocolLogin::getCharacterList`. -/
structure ListTask where
  accountName : Text
  password : Text
  token : Text
  version : UInt16

/-- The arguments of `ProtocolGame::login`. -/
structure LoginTask where
  characterName : Text
  accountId : UInt32
  operatingSystem : OperatingSystem

def onlyClients : String := "Only clients with protocol " ++ CLIENT_VERSION_STR ++ " allowed!"

def bannedUntil (v : Services) (info : BanInfo) : String :=
  "Your IP has been banned until " ++ v.formatDateShort info.expiresAt ++ " by " ++ info.bannedBy ++
    ".\n\nReason specified:\n" ++ if info.reason.isEmpty then "(none)" else info.reason

/-- `ProtocolLogin::onRecvFirstMessage`. -/
def LoginMessage.onRecv (v : Services) (gameState : GameState) (ban : Option BanInfo)
    (msg : LoginMessage) : Answer ListTask :=
  if gameState = .shutdown then .disconnect
  else if msg.version ≤ 760 then .disconnectClient onlyClients
  else if !msg.decrypts then .disconnect
  else if msg.version < CLIENT_VERSION_MIN ∨ CLIENT_VERSION_MAX < msg.version then
    .disconnectClient onlyClients
  else if gameState = .startup then .disconnectClient "Gameworld is starting up. Please wait."
  else if gameState = .maintain then
    .disconnectClient "Gameworld is under maintenance.\nPlease re-connect in a while."
  else match ban with
    | some info => .disconnectClient (bannedUntil v info)
    | none =>
      if msg.accountName.isEmpty then .disconnectClient "Invalid account name."
      else if msg.password.isEmpty then .disconnectClient "Invalid password."
      else .addTask {
        accountName := msg.accountName
        password := msg.password
        token := []
        version := msg.version }

/-- `ProtocolGame::onRecvFirstMessage`. There is no answer if something throws. -/
def GameMessage.onRecv (v : Services) (db : Database) (gameState : GameState) (ban : Option BanInfo)
    (challenge : Challenge) (msg : GameMessage) : Option (Answer LoginTask) :=
  if gameState = .shutdown then some .disconnect
  else if !msg.decrypts then some .disconnect
  else if challenge.timestamp ≠ msg.timeStamp ∨ challenge.random ≠ msg.randNumber then
    some .disconnect
  else if msg.version < CLIENT_VERSION_MIN ∨ CLIENT_VERSION_MAX < msg.version then
    some (.disconnectClient onlyClients)
  else if gameState = .startup then
    some (.disconnectClient "Gameworld is starting up. Please wait.")
  else if gameState = .maintain then
    some (.disconnectClient "Gameworld is under maintenance. Please re-connect in a while.")
  else match ban with
    | some info => some (.disconnectClient (bannedUntil v info))
    | none =>
      if msg.accountName.isEmpty then some (.disconnectClient "You must enter your account name.")
      else do
        let emptyPassword : Text := []
        let emptyToken : Text := []
        let (accountId, characterName) ←
          gameworldAuthentication v db msg.accountName emptyPassword msg.characterName emptyToken 0
        if accountId = 0 then
          return .disconnectClient "Account name or password is not correct."
        else return .addTask {
          characterName := characterName
          accountId := accountId
          operatingSystem := .ofRaw msg.operatingSystem }

/-! ## Runs -/

/-- The server, with the tasks of the login port for which an account was found, and those that
the game port has dispatched. -/
structure Server (Client : Type) where
  gameState : GameState
  isIpBanned : UInt32 → Option BanInfo
  accepted : List (Client × ListTask) := []
  dispatched : List (Client × LoginTask) := []

inductive Event (Client : Type)
  | setGameState (gameState : GameState)
  | setBans (isIpBanned : UInt32 → Option BanInfo)
  | loginPort (client : Client) (ip : UInt32) (msg : LoginMessage)
  | gamePort (client : Client) (ip : UInt32) (challenge : Challenge) (msg : GameMessage)

/-- `ProtocolLogin::getCharacterList`: it goes on if there is an account. -/
def getCharacterList (v : Services) (db : Database) (task : ListTask) : Option Account :=
  loginserverAuthentication v db task.accountName task.password

section Runs
variable {Client : Type} (v : Services) (db : Database)

def step (s : Server Client) : Event Client → Server Client
  | .setGameState gameState => { s with gameState }
  | .setBans isIpBanned => { s with isIpBanned }
  | .loginPort client ip msg =>
    match msg.onRecv v s.gameState (s.isIpBanned ip) with
    | .addTask task =>
      if (getCharacterList v db task).isSome then
        { s with accepted := (client, task) :: s.accepted }
      else s
    | _ => s
  | .gamePort client ip challenge msg =>
    match msg.onRecv v db s.gameState (s.isIpBanned ip) challenge with
    | some (.addTask task) => { s with dispatched := (client, task) :: s.dispatched }
    | _ => s

/-- A server to which nobody has come yet. -/
def Server.start (gameState : GameState) (isIpBanned : UInt32 → Option BanInfo) : Server Client where
  gameState := gameState
  isIpBanned := isIpBanned

/-- A client has shown the password of an account, and a token if it has a secret. -/
structure Shown (accepted : List (Client × ListTask)) (client : Client) (row : AccountRow) :
    Prop where
  password : ∃ task, (client, task) ∈ accepted ∧ v.transformToSHA1 task.password = row.password
  token : row.secret ≠ [] → ∃ task, (client, task) ∈ accepted ∧
    ∃ counter, generateToken v.hmac (decodeSecret row.secret) counter = some task.token

/-- Who is let in has shown what his account is guarded with. -/
def Verified (s : Server Client) : Prop :=
  ∀ client task, (client, task) ∈ s.dispatched →
    ∀ row ∈ db.accounts, row.id = task.accountId → Shown v s.accepted client row

/-- A message on the game port that is not refused before the rows are asked. -/
structure GameMessage.Admitted (msg : GameMessage) (gameState : GameState) (ban : Option BanInfo)
    (challenge : Challenge) : Prop where
  gameState : gameState ∉ [.shutdown, .startup, .maintain]
  decrypts : msg.decrypts = true
  timestamp : challenge.timestamp = msg.timeStamp
  random : challenge.random = msg.randNumber
  version : CLIENT_VERSION_MIN ≤ msg.version ∧ msg.version ≤ CLIENT_VERSION_MAX
  ban : ban = none
  accountName : msg.accountName ≠ []

section Answers
variable {v : Services} {db : Database} {msg : GameMessage} {gameState : GameState}
variable {ban : Option BanInfo} {challenge : Challenge} {task : LoginTask}

/-- What the game port does with the answer of `gameworldAuthentication`. -/
def GameMessage.answer (msg : GameMessage) (found : UInt32 × Text) : Answer LoginTask :=
  if found.1 = 0 then .disconnectClient "Account name or password is not correct."
  else .addTask ⟨found.2, found.1, .ofRaw msg.operatingSystem⟩

theorem GameMessage.Admitted.onRecv_eq (h : msg.Admitted gameState ban challenge) :
    msg.onRecv v db gameState ban challenge =
      (gameworldAuthentication v db msg.accountName [] msg.characterName [] 0).map msg.answer := by
  obtain ⟨hstate, hdecrypts, htimestamp, hrandom, hversion, rfl, hname⟩ := h
  simp only [List.mem_cons, List.not_mem_nil, or_false, not_or] at hstate
  have hsame : ¬(challenge.timestamp ≠ msg.timeStamp ∨ challenge.random ≠ msg.randNumber) := by
    rw [not_or, not_not, not_not]
    exact ⟨htimestamp, hrandom⟩
  have hallowed : ¬(msg.version < CLIENT_VERSION_MIN ∨ CLIENT_VERSION_MAX < msg.version) := by
    rw [not_or, UInt16.not_lt, UInt16.not_lt]
    exact hversion
  rw [GameMessage.onRecv, if_neg hstate.1, hdecrypts, if_neg (by simp), if_neg hsame,
    if_neg hallowed, if_neg hstate.2.1, if_neg hstate.2.2]
  simp only [List.isEmpty_iff, hname, if_false]
  cases gameworldAuthentication v db msg.accountName [] msg.characterName [] 0 with
  | none => rfl
  | some found =>
    simp only [Option.bind_eq_bind, Option.bind_some, Option.map_some, GameMessage.answer]
    split <;> rfl

theorem GameMessage.admitted_of_onRecv (h : msg.onRecv v db gameState ban challenge = some (.addTask task)) :
    msg.Admitted gameState ban challenge := by
  unfold GameMessage.onRecv at h
  cases ban with
  | some info => split_ifs at h <;> cases h
  | none =>
    split_ifs at h with hshutdown hdecrypts hsame hallowed hstartup hmaintain hname
    iterate 7 cases h
    rw [not_or, not_not, not_not] at hsame
    rw [not_or, UInt16.not_lt, UInt16.not_lt] at hallowed
    exact {
      gameState := by simp [hshutdown, hstartup, hmaintain]
      decrypts := by simpa using hdecrypts
      timestamp := hsame.1
      random := hsame.2
      version := hallowed
      ban := rfl
      accountName := by simpa using hname }

/-- The game port dispatches a task for every message that is admitted and names an account and a
character of it. -/
theorem GameMessage.onRecv_iff : msg.onRecv v db gameState ban challenge = some (.addTask task) ↔
      msg.Admitted gameState ban challenge ∧ ∃ row player,
        db.Names v msg.accountName msg.characterName row player ∧ row.id ≠ 0 ∧
          task = ⟨player.name, row.id, .ofRaw msg.operatingSystem⟩ := by
  constructor
  · intro h
    have hadmitted := GameMessage.admitted_of_onRecv h
    rw [hadmitted.onRecv_eq, Option.map_eq_some_iff] at h
    obtain ⟨⟨id, name⟩, hfound, hanswer⟩ := h
    unfold GameMessage.answer at hanswer
    split at hanswer
    · cases hanswer
    · rename_i hid
      cases hanswer
      obtain ⟨row, player, hnames, rfl, rfl⟩ := gameworldAuthentication_names hfound hid
      exact ⟨hadmitted, row, player, hnames, hid, rfl⟩
  · rintro ⟨hadmitted, row, player, hnames, hid, rfl⟩
    have hfound : gameworldAuthentication v db msg.accountName [] msg.characterName [] 0 =
        some (row.id, player.name) :=
      (gameworldAuthentication_empty_iff hid).mpr ⟨row, player, hnames, rfl, rfl⟩
    rw [hadmitted.onRecv_eq, hfound, Option.map_some, GameMessage.answer, if_neg hid]

theorem LoginMessage.token_of_onRecv {msg : LoginMessage} {task : ListTask}
    (h : msg.onRecv v gameState ban = .addTask task) : task.token = [] := by
  unfold LoginMessage.onRecv at h
  cases ban with
  | some info => split_ifs at h
  | none =>
    split_ifs at h
    cases h
    rfl

end Answers

/-! ## Who is let in -/

section Who
variable {v db} {s : Server Client}

theorem generateToken_ne_nil (hmac : Bytes → Bytes → Digest) (key : Bytes) (counter : UInt64) :
    generateToken hmac key counter ≠ some [] := by
  rw [generateToken_eq _ _ _ (by decide)]
  intro h
  split at h
  · have hlength := congrArg List.length (Option.some.inj h)
    rw [length_lastDigits, authenticatorDigits, List.length_nil] at hlength
    omega
  · cases h

/-- No token has been handed over. -/
def NoTokens (s : Server Client) : Prop := ∀ client task, (client, task) ∈ s.accepted → task.token = []

theorem NoTokens.step (h : NoTokens s) (e : Event Client) : NoTokens (step v db s e) := by
  cases e with
  | setGameState gameState => exact h
  | setBans isIpBanned => exact h
  | gamePort client ip challenge msg =>
    rw [Login.step]
    split <;> exact h
  | loginPort client ip msg =>
    rw [Login.step]
    split
    · rename_i task hanswer
      split
      · intro other task' hmem
        cases hmem with
        | head => exact LoginMessage.token_of_onRecv hanswer
        | tail _ hmem => exact h other task' hmem
      · exact h
    · exact h

theorem NoTokens.shown_iff (h : NoTokens s) {client : Client} {row : AccountRow} :
    Shown v s.accepted client row ↔ row.secret = [] ∧
      ∃ task, (client, task) ∈ s.accepted ∧ v.transformToSHA1 task.password = row.password := by
  constructor
  · rintro ⟨hpassword, htoken⟩
    refine ⟨?_, hpassword⟩
    by_contra hsecret
    obtain ⟨task, hmem, counter, hgenerated⟩ := htoken hsecret
    rw [h client task hmem] at hgenerated
    exact generateToken_ne_nil _ _ _ hgenerated
  · rintro ⟨hsecret, hpassword⟩
    exact ⟨hpassword, fun hne => absurd hsecret hne⟩

theorem Shown.mono {accepted later : List (Client × ListTask)} (hmono : accepted ⊆ later) {client : Client}
    {row : AccountRow} (h : Shown v accepted client row) : Shown v later client row := by
  obtain ⟨⟨task, hmem, hpassword⟩, htoken⟩ := h
  refine ⟨⟨task, hmono hmem, hpassword⟩, fun hsecret => ?_⟩
  obtain ⟨task, hmem, htoken⟩ := htoken hsecret
  exact ⟨task, hmono hmem, htoken⟩

theorem Verified.mono {t : Server Client} (h : Verified v db s) (hdispatched : t.dispatched = s.dispatched)
    (hmono : s.accepted ⊆ t.accepted) : Verified v db t := by
  intro client task hmem row hrow hid
  rw [hdispatched] at hmem
  exact (h client task hmem row hrow hid).mono hmono

/-- Whoever asks the game port for a character that there is has been let in by the login port,
with the password of the account, which has no secret. -/
def Known (v : Services) (db : Database) (s : Server Client) : Event Client → Prop
  | .gamePort client ip challenge msg => ∀ row player, msg.Admitted s.gameState (s.isIpBanned ip) challenge →
    db.Names v msg.accountName msg.characterName row player → row.id ≠ 0 →
      row.secret = [] ∧ ∃ task, (client, task) ∈ s.accepted ∧ v.transformToSHA1 task.password = row.password
  | _ => True

/-- A step keeps what has been verified exactly if it is by someone who is known. -/
theorem Verified.step_iff (h : Verified v db s) (hno : NoTokens s) (e : Event Client) :
    Verified v db (step v db s e) ↔ Known v db s e := by
  cases e with
  | setGameState gameState => exact iff_of_true (h.mono rfl (List.Subset.refl _)) trivial
  | setBans isIpBanned => exact iff_of_true (h.mono rfl (List.Subset.refl _)) trivial
  | loginPort client ip msg =>
    refine iff_of_true ?_ trivial
    rw [Login.step]
    split
    · split
      · exact h.mono rfl (List.subset_cons_self _ _)
      · exact h
    · exact h
  | gamePort client ip challenge msg =>
    have hknown : ∀ row, Shown v s.accepted client row ↔ row.secret = [] ∧ ∃ task,
        (client, task) ∈ s.accepted ∧ v.transformToSHA1 task.password = row.password :=
      fun row => hno.shown_iff
    rw [Login.step]
    split
    · rename_i task hanswer
      obtain ⟨hadmitted, row, player, hnames, hid, rfl⟩ := GameMessage.onRecv_iff.mp hanswer
      have hrow : row ∈ db.accounts := List.mem_of_find?_eq_some hnames.account
      constructor
      · intro hafter row' player' _ hnames' _
        have hsame : row = row' := Option.some.inj (hnames.account.symm.trans hnames'.account)
        subst hsame
        exact (hknown row).mp (hafter client _ (List.mem_cons_self ..) row hrow rfl)
      · intro hok other task hmem other_row hother hsame
        cases hmem with
        | head =>
          have hrow_eq := db.row_eq_of_id hother hrow hsame
          subst hrow_eq
          exact (hknown other_row).mpr (hok other_row player hadmitted hnames hid)
        | tail _ hmem => exact h other task hmem other_row hother hsame
    · rename_i hrefused
      refine iff_of_true h fun row player hadmitted hnames hid => ?_
      have hanswer := GameMessage.onRecv_iff.mpr ⟨hadmitted, row, player, hnames, hid, rfl⟩
      exact absurd hanswer (hrefused _)

end Who

/-- The id of an account is returned only for a character of its own that is not deleted. That
the game port lets in only those who have shown the password and the token is so exactly as long as
nobody else asks for a character. -/
theorem game_login_is_verified_iff : (∀ accountName password characterName token tokenTime id name,
      gameworldAuthentication v db accountName password characterName token tokenTime = some (id, name) → id ≠ 0 →
        ∃ row ∈ db.accounts, ∃ player ∈ db.players, v.same row.name accountName = true ∧
          row.id = id ∧ v.same player.name characterName = true ∧ player.name = name ∧
          player.accountId = id ∧ player.deletion = 0) ∧
    ∀ gameState isIpBanned (events : List (Event Client)), (∀ before, before <+: events →
        Verified v db (run (step v db) (.start gameState isIpBanned) before)) ↔
      Along (step v db) (Known v db) (.start gameState isIpBanned) events := by
  constructor
  · intro accountName password characterName token tokenTime id name h hid
    obtain ⟨row, player, hnames, hrow, hname⟩ := gameworldAuthentication_names h hid
    have haccount : v.same row.name accountName = true := by
      simpa using List.find?_some hnames.account
    have hcharacter : v.same player.name characterName = true := by
      simpa using List.find?_some hnames.character
    exact ⟨row, List.mem_of_find?_eq_some hnames.account, player,
      List.mem_of_find?_eq_some hnames.character, haccount, hrow, hcharacter, hname,
      hnames.owned.trans hrow, hnames.kept⟩
  · intro gameState isIpBanned events
    refine @inv_reached_iff_of_legal _ _ (step v db) (fun _ _ => True) _ NoTokens _
      (fun s e h _ => h.step e) (fun s e hno h _ => h.step_iff hno e) _ _ ?_ ?_
      (Along.of_forall fun _ _ => trivial)
    · intro client task hmem
      cases hmem
    · intro client task hmem
      cases hmem

end Runs

/-! An account with one character. -/

/-- The hash of `tibia`. -/
def tibiaHash : Text := "41da8bef22aaef9d7c5821fa0f0de7cccc4dda4d".toList

def plainServices : Services where
  transformToSHA1 password := if password = "tibia".toList then tibiaHash else []
  hmac _ _ := shortDigest
  same := (· == ·)
  formatDateShort _ := "1 Jan 2030"

def oneAccount : Database where
  accounts := [{ id := 7, name := "anna".toList, password := tibiaHash }]
  players := [{ name := "Anna".toList, accountId := 7 }]
  ids := List.nodup_singleton 7

def annasGame : GameMessage where
  operatingSystem := 2
  version := 860
  decrypts := true
  accountName := "anna".toList
  characterName := "Anna".toList
  timeStamp := 5
  randNumber := 9

def annasLogin : LoginMessage where
  version := 860
  decrypts := true
  accountName := "anna".toList
  password := "tibia".toList

theorem annasGame_admitted : annasGame.Admitted .normal none ⟨5, 9⟩ where
  gameState := by decide
  decrypts := rfl
  timestamp := rfl
  random := rfl
  version := by decide
  ban := rfl
  accountName := List.cons_ne_nil _ _

/-- Somebody who knows no password asks for the character, and gets it. -/
theorem stranger_gets_character : ¬Verified plainServices oneAccount
      (run (step plainServices oneAccount) (Server.start .normal fun _ => none)
        [.gamePort () 1 ⟨5, 9⟩ annasGame]) := by
  have hnames : oneAccount.Names plainServices "anna".toList "Anna".toList
      { id := 7, name := "anna".toList, password := tibiaHash }
      { name := "Anna".toList, accountId := 7 } := ⟨rfl, rfl, rfl, rfl⟩
  have hstart : Verified plainServices oneAccount
      (.start .normal fun _ => none : Server Unit) := fun _ _ hmem => by cases hmem
  have hno : NoTokens (.start .normal fun _ => none : Server Unit) :=
    fun _ _ hmem => by cases hmem
  rw [run_cons, run_nil, hstart.step_iff hno]
  intro hknown
  obtain ⟨-, task, hmem, -⟩ := hknown _ _ annasGame_admitted hnames (by decide)
  cases hmem

/-- Someone who shows the password first is let in. -/
theorem anna_is_verified : (∃ row ∈ oneAccount.accounts, ∃ player ∈ oneAccount.players,
      plainServices.same row.name "anna".toList = true ∧ row.id = 7 ∧
        plainServices.same player.name "Anna".toList = true ∧ player.name = "Anna".toList ∧
        player.accountId = 7 ∧ player.deletion = 0) ∧
    ∀ before, before <+: [.loginPort () 1 annasLogin, .gamePort () 1 ⟨5, 9⟩ annasGame] →
      Verified plainServices oneAccount
        (run (step plainServices oneAccount) (.start .normal fun _ => none) before) := by
  have h := @game_login_is_verified_iff Unit plainServices oneAccount
  refine ⟨h.1 "anna".toList "tibia".toList "Anna".toList [] 0 7 "Anna".toList (by decide)
    (by decide), (h.2 _ _ _).mpr ⟨trivial, ?_, trivial⟩⟩
  intro row player _ hnames _
  have hrow : row = { id := 7, name := "anna".toList, password := tibiaHash } :=
    Option.some.inj (hnames.account.symm.trans rfl)
  subst hrow
  exact ⟨rfl, ⟨"anna".toList, "tibia".toList, [], 860⟩, List.mem_cons_self .., rfl⟩

end ForgottenServer.Login
