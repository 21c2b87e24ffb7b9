import ForgottenServer.Login.OneClient

/-! # The handover

A player whose client was thrown out waits for the session that threw it out, and cannot
log out meanwhile (`isConnecting`). A player whose client is closed is given up when the
dispatcher releases the session. Both hold on, except for a call of `connect` that comes
at the wrong time: before the client that was thrown out is released, as the scheduler
puts its tasks in front of the others, or when the connection of its own session is gone,
or when that session was released already. -/
namespace ForgottenServer.Login.Sessions
open ForgottenServer.Lib.Run

variable (cfg : Config) (formatDateShort : ℤ → String)

/-- The task is a call of `connect` for the player. -/
def Task.brings (x : ℕ) : Task → Bool
  | .connect _ y => y = x
  | _ => false

/-- A call of `connect` for the player is on its way. -/
def awaits (scheduled : List (ℕ × ℕ)) (x : ℕ) (tasks : List Task) : Bool :=
  tasks.any (·.brings x) || scheduled.any (·.2 = x)

/-- Closed clients will be released, and the players of the set who wait will be taken over. -/
structure Tended (g : Game) (among : ℕ → Prop) : Prop where
  attended : ∀ x c, (g.players x).client = some c → (g.sessions c).closed = true → .release c ∈ g.tasks
  awaited : ∀ x, among x → (g.players x).online = true → (g.players x).isConnecting = true →
    awaits g.scheduled x g.tasks = true

/-- No player is left behind. -/
def Game.AllTended (g : Game) : Prop := Tended g fun _ => True

/-- `connect` refuses the session: the player has a client, or the connection is gone. -/
def Game.refuses (g : Game) (p x : ℕ) : Bool := (g.players x).client.isSome || (g.sessions p).expired

/-- The call of `connect` comes at the wrong time for its player: the session is refused, and
there is no other call; or the session was released. -/
def untimely (g : Game) : Event → Bool
  | .dispatch _ =>
    match g.tasks with
    | .connect p x :: tasks =>
      (g.players x).online &&
        if g.refuses p x then (g.players x).isConnecting && !awaits g.scheduled x tasks
        else (g.sessions p).closed && .release p ∉ tasks
    | _ => false
  | _ => false

variable {cfg} {g : Game} {p x : ℕ} {among : ℕ → Prop}

theorem Tended.grow {g' : Game} (h : Tended g among) (hrelease : ∀ c, .release c ∈ g.tasks → .release c ∈ g'.tasks)
    (hawaits : ∀ x, awaits g.scheduled x g.tasks = true → awaits g'.scheduled x g'.tasks = true)
    (hclosed : ∀ c, (g'.sessions c).closed = true → (g.sessions c).closed = true ∨ .release c ∈ g'.tasks)
    (hclient : ∀ x, (g'.players x).client = (g.players x).client)
    (hwaits : ∀ x, (g'.players x).online = true → (g'.players x).isConnecting = true →
      (g.players x).online = true ∧ (g.players x).isConnecting = true) : Tended g' among where
  attended x c hc hclose := by
    rw [hclient] at hc
    obtain hold | hnew := hclosed c hclose
    · exact hrelease c (h.attended x c hc hold)
    · exact hnew
  awaited x hx honline hconnecting := by
    obtain ⟨honline, hconnecting⟩ := hwaits x honline hconnecting
    exact hawaits x (h.awaited x hx honline hconnecting)

theorem Tended.session {f : Session → Session} (h : Tended g among)
    (hf : (f (g.sessions p)).closed = (g.sessions p).closed) : Tended (g.session p f) among := by
  refine h.grow (fun _ => id) (fun _ => id) (fun c hc => .inl ?_) (fun _ => rfl)
    fun x honline hconnecting => ⟨honline, hconnecting⟩
  rw [← hc]
  exact (session_field Session.closed hf c).symm

theorem awaits_close (g : Game) (p x : ℕ) :
    awaits (g.close p).scheduled x (g.close p).tasks = awaits g.scheduled x g.tasks := by
  unfold Game.close
  split
  · rfl
  · simp [awaits, Task.brings, Game.session]

theorem Tended.close (h : Tended g among) (p : ℕ) : Tended (g.close p) among := by
  have hawaits := awaits_close g p
  unfold Game.close at hawaits ⊢
  split
  · exact h
  · rename_i hthere
    simp only [if_neg hthere] at hawaits
    refine h.grow (fun c => List.mem_append_left _) (fun x hx => (hawaits x).trans hx)
      (fun c hc => ?_) (fun _ => rfl) fun x honline hconnecting => ⟨honline, hconnecting⟩
    by_cases hcp : c = p
    · exact .inr (List.mem_append_right _ (by rw [hcp]; exact List.mem_singleton_self _))
    · dsimp only at hc
      rw [session_of_ne hcp] at hc
      exact .inl hc

theorem Tended.disconnectClient (h : Tended g among) (p : ℕ) (message : String) :
    Tended (g.disconnectClient p message) among := by
  unfold Game.disconnectClient
  refine Tended.close ?_ p
  split
  · exact h
  · exact h.session rfl

theorem Tended.pop {task : Task} {tasks : List Task} (h : Tended g among) (htasks : g.tasks = task :: tasks)
    (htask : ∀ p, task ≠ .release p) : Tended { g with tasks } fun x => among x ∧ task.brings x = false where
  attended x c hc hclose := by
    have hmem := h.attended x c hc hclose
    rw [htasks] at hmem
    exact (List.mem_cons.mp hmem).resolve_left (htask c).symm
  awaited x hx honline hconnecting := by
    have hawaits := h.awaited x hx.1 honline hconnecting
    unfold awaits at hawaits ⊢
    rw [htasks, List.any_cons, hx.2, Bool.false_or] at hawaits
    exact hawaits

/-! ## Taking over -/

theorem attach_client (g : Game) (p x : ℕ) : ((g.attach p x).players x).client = some p :=
  congrArg Player.client (@player_self g x fun y =>
    { y with client := some p, isConnecting := false, held := y.held + 1 })

theorem attach_closed (g : Game) (p x c : ℕ) : ((g.attach p x).sessions c).closed = (g.sessions c).closed :=
  @session_field g p (fun s => { s with player := some x, acceptPackets := true }) _
    Session.closed rfl c

theorem Tended.take {g' : Game} (h : Tended g fun y => among y ∧ y ≠ x) (htasks : g'.tasks = g.tasks)
    (hscheduled : g'.scheduled = g.scheduled) (hclosed : ∀ c, (g'.sessions c).closed = (g.sessions c).closed)
    (hother : ∀ y, y ≠ x → g'.players y = g.players y) (hclient : (g'.players x).client = some p)
    (hconnecting : (g'.players x).isConnecting = false) (hp : (g.sessions p).closed = true → .release p ∈ g.tasks) :
    Tended g' among where
  attended y c hc hclose := by
    rw [hclosed] at hclose
    rw [htasks]
    by_cases hyx : y = x
    · rw [hyx, hclient] at hc
      cases hc
      exact hp hclose
    · rw [hother y hyx] at hc
      exact h.attended y c hc hclose
  awaited y hy honline hwaits := by
    rw [htasks, hscheduled]
    by_cases hyx : y = x
    · rw [hyx, hconnecting] at hwaits
      cases hwaits
    · rw [hother y hyx] at honline hwaits
      exact h.awaited y ⟨hy, hyx⟩ honline hwaits

theorem Tended.attach (h : Tended g fun y => among y ∧ y ≠ x)
    (hp : (g.sessions p).closed = true → .release p ∈ g.tasks) : Tended (g.attach p x) among :=
  h.take rfl rfl (attach_closed g p x) (fun _ hy => Function.update_of_ne hy ..)
    (attach_client g p x) (congrArg Player.isConnecting (@player_self g x fun y =>
      { y with client := some p, isConnecting := false, held := y.held + 1 })) hp

theorem Tended.create (h : Tended g among)
    (hp : (g.sessions p).closed = true → .release p ∈ g.tasks) (name : String)
    (character : Character) : Tended (g.create p name character) among := by
  have hself : (g.create p name character).players g.created = {
      name
      account := character.account
      accountType := character.accountType
      client := some p
      held := 1 } := Function.update_self ..
  have hrest : Tended g fun y => among y ∧ y ≠ g.created :=
    ⟨h.attended, fun y hy => h.awaited y hy.1⟩
  refine hrest.take rfl rfl ?_ (fun y hy => Function.update_of_ne hy ..) ?_ ?_ hp
  · exact @session_field g p (fun s => { s with player := some g.created }) _ Session.closed rfl
  · rw [hself]
  · rw [hself]

theorem Tended.setOnline (h : Tended g among) (x : ℕ) (online : Bool) {g' : Game}
    (hg : g'.players = (g.player x fun y => { y with online := online }).players)
    (hsessions : g'.sessions = g.sessions) (htasks : g'.tasks = g.tasks) (hscheduled : g'.scheduled = g.scheduled)
    (hx : online = true → (g.players x).isConnecting = false) : Tended g' among := by
  refine h.grow (fun _ => by rw [htasks]; exact id) (fun _ => by rw [htasks, hscheduled]; exact id)
    (fun c hc => .inl (hsessions ▸ hc)) (fun y => ?_) fun y honline hconnecting => ?_
  · rw [hg]
    exact @player_field g x (fun y => { y with online := online }) _ Player.client rfl y
  · rw [hg] at honline hconnecting
    by_cases hyx : y = x
    · rw [hyx, player_self] at honline hconnecting
      rw [hx honline] at hconnecting
      cases hconnecting
    · rw [player_of_ne hyx] at honline hconnecting
      exact ⟨honline, hconnecting⟩

theorem Tended.removePlayer (h : Tended g among) (x : ℕ) : Tended (g.removePlayer x) among := by
  unfold Game.removePlayer
  split
  · exact h.setOnline x false rfl rfl rfl rfl nofun
  · exact h

theorem Tended.enter (h : Tended g among) (hp : (g.sessions p).closed = true → .release p ∈ g.tasks) (name : String)
    (answers : Answers) : Tended (g.enter cfg formatDateShort p name answers) among := by
  unfold Game.enter
  have hcreate := h.create hp name (answers.character.getD {})
  dsimp only
  split
  · exact hcreate.disconnectClient p _
  · refine Tended.session (hcreate.setOnline g.created true rfl rfl rfl rfl
      fun _ => ?_) rfl
    have hnew := @player_self g g.created fun _ => {
      name
      account := (answers.character.getD {}).account
      accountType := (answers.character.getD {}).accountType
      client := some p
      held := 1 }
    exact congrArg Player.isConnecting hnew

theorem connect_of_refused (hrefuses : g.refuses p x = true) :
    ∃ message, g.connect p x = g.session p (fun s => { s with eventConnect := false }) ∨
      g.connect p x =
        (g.session p fun s => { s with eventConnect := false }).disconnectClient p message := by
  unfold Game.connect
  dsimp only
  rw [session_self]
  split
  · exact ⟨_, .inr rfl⟩
  · rename_i hfree
    refine ⟨"", .inl ?_⟩
    rw [Bool.or_eq_true, not_or] at hfree
    have hexpired : (g.sessions p).expired = true :=
      ((Bool.or_eq_true _ _).mp hrefuses).resolve_left hfree.2
    rw [if_pos hexpired]

theorem connect_of_let_in (honline : (g.players x).online = true) (hrefuses : g.refuses p x = false) :
    g.connect p x = (g.session p fun s => { s with eventConnect := false }).attach p x := by
  obtain ⟨hclient, hexpired⟩ := Bool.or_eq_false_iff.mp hrefuses
  unfold Game.connect
  dsimp only
  rw [session_self]
  refine (if_neg ?_).trans (if_neg (by rw [hexpired]; exact Bool.false_ne_true))
  change ¬(!(g.players x).online || (g.players x).client.isSome) = true
  rw [honline, hclient]
  exact Bool.false_ne_true

theorem connect_offline (honline : (g.players x).online = false) :
    g.connect p x = (g.session p fun s => { s with eventConnect := false }).disconnectClient p
      "You are already logged in." := by
  unfold Game.connect
  dsimp only
  refine if_pos ?_
  change (!(g.players x).online || (g.players x).client.isSome) = true
  rw [honline]
  rfl

theorem Tended.fill (h : Tended g fun y => among y ∧ y ≠ x)
    (hx : (g.players x).online = true → (g.players x).isConnecting = true → awaits g.scheduled x g.tasks = true) :
    Tended g among where
  attended := h.attended
  awaited y hy honline hconnecting := by
    by_cases hyx : y = x
    · rw [hyx] at honline hconnecting ⊢
      exact hx honline hconnecting
    · exact h.awaited y ⟨hy, hyx⟩ honline hconnecting

theorem Tended.connect (h : Tended g fun y => among y ∧ y ≠ x) (hx : (g.players x).online = true →
      if g.refuses p x then (g.players x).isConnecting = true → awaits g.scheduled x g.tasks = true
      else (g.sessions p).closed = true → .release p ∈ g.tasks) : Tended (g.connect p x) among := by
  have hnext : Tended (g.session p fun s => { s with eventConnect := false })
      fun y => among y ∧ y ≠ x := h.session rfl
  cases honline : (g.players x).online with
  | false =>
    rw [connect_offline honline]
    refine (hnext.fill fun hon => ?_).disconnectClient p _
    exact absurd (honline.symm.trans hon) Bool.false_ne_true
  | true =>
    have hx := hx honline
    cases hrefuses : g.refuses p x with
    | true =>
      rw [if_pos hrefuses] at hx
      have hfill := hnext.fill fun _ => hx
      obtain ⟨message, heq | heq⟩ := connect_of_refused hrefuses
      · rw [heq]
        exact hfill
      · rw [heq]
        exact hfill.disconnectClient p message
    | false =>
      rw [if_neg (by rw [hrefuses]; exact Bool.false_ne_true)] at hx
      rw [connect_of_let_in honline hrefuses]
      refine hnext.attach ?_
      rw [session_self]
      exact hx

theorem Tended.kick {c : ℕ} (h : Tended g among) :
    Tended { ((g.close c).player x fun y => { y with isConnecting := true }).session p
        (fun s => { s with eventConnect := true }) with
      scheduled := (g.close c).scheduled ++ [(p, x)] } among := by
  have hclose := h.close c
  have hclosed : ∀ d, (((g.close c).session p fun s => { s with eventConnect := true }).sessions
      d).closed = ((g.close c).sessions d).closed := session_field Session.closed rfl
  have hclient : ∀ y, (((g.close c).player x fun y => { y with isConnecting := true }).players
      y).client = ((g.close c).players y).client := player_field Player.client rfl
  have hother : ∀ y, y ≠ x → ((g.close c).player x fun y => { y with isConnecting := true }).players
      y = (g.close c).players y := fun y hy => player_of_ne hy
  refine ⟨fun y d hd hclose' => ?_, fun y hy honline hconnecting => ?_⟩
  · exact hclose.attended y d ((hclient y).symm.trans hd) ((hclosed d).symm.trans hclose')
  · by_cases hyx : y = x
    · simp [awaits, hyx]
    · have honline := (congrArg Player.online (hother y hyx)).symm.trans honline
      have hconnecting := (congrArg Player.isConnecting (hother y hyx)).symm.trans hconnecting
      have hawaits := hclose.awaited y hy honline hconnecting
      unfold awaits at hawaits ⊢
      dsimp only [Game.session, Game.player]
      rw [List.any_append, ← Bool.or_assoc, hawaits, Bool.true_or]

theorem Tended.replace (h : Tended g among) (hx : among x) (hp : (g.sessions p).closed = true → .release p ∈ g.tasks) :
    Tended (g.replace cfg p x) among := by
  unfold Game.replace
  split
  · exact h.disconnectClient p _
  · dsimp only
    refine Tended.session ?_ rfl
    split
    · have hrest : Tended g fun y => among y ∧ y ≠ x := ⟨h.attended, fun y hy => h.awaited y hy.1⟩
      refine hrest.connect fun honline => ?_
      split
      · exact fun hconnecting => h.awaited x hx honline hconnecting
      · exact hp
    · exact h.kick

theorem release_players (hlinked : Linked g) (p x : ℕ) : ((g.release p).players x).online = (g.players x).online ∧
      ((g.release p).players x).isConnecting = (g.players x).isConnecting ∧
      ((g.release p).players x).client =
        if (g.players x).client = some p then none else (g.players x).client := by
  unfold Game.release
  cases hp : (g.sessions p).player with
  | none =>
    refine ⟨rfl, rfl, (if_neg fun hx => ?_).symm⟩
    rw [(hlinked.clients x p).mp hx] at hp
    cases hp
  | some y =>
    dsimp only
    rw [if_pos ((hlinked.clients y p).mpr hp)]
    by_cases hxy : x = y
    · have hself := @player_self g y fun z => { z with client := none, held := z.held - 1 }
      have honline := congrArg Player.online hself
      have hconnecting := congrArg Player.isConnecting hself
      have hclient := congrArg Player.client hself
      rw [hxy, if_pos ((hlinked.clients y p).mpr hp)]
      exact ⟨honline, hconnecting, hclient⟩
    · have hother := @player_of_ne g y x (fun z => { z with client := none, held := z.held - 1 }) hxy
      have hx : (g.players x).client ≠ some p := fun hx => by
        rw [(hlinked.clients x p).mp hx] at hp
        exact hxy (Option.some.inj hp)
      have honline := congrArg Player.online hother
      have hconnecting := congrArg Player.isConnecting hother
      have hclient := congrArg Player.client hother
      rw [if_neg hx]
      exact ⟨honline, hconnecting, hclient⟩

theorem release_rest (g : Game) (p : ℕ) : (g.release p).tasks = g.tasks ∧ (g.release p).scheduled = g.scheduled ∧
    ∀ c, ((g.release p).sessions c).closed = (g.sessions c).closed := by
  have hsession : ∀ (g : Game) (f : Session → Session), (∀ s, (f s).closed = s.closed) → ∀ c,
      ((g.session p f).sessions c).closed = (g.sessions c).closed := fun g f hf =>
    session_field Session.closed (hf _)
  unfold Game.release
  split
  · exact ⟨rfl, rfl, hsession g _ fun _ => rfl⟩
  · split
    · refine ⟨rfl, rfl, fun c => ?_⟩
      dsimp only
      refine (hsession _ _ ?_ c).trans ((hsession (g.player _ _) _ ?_ c).trans rfl)
      all_goals
        intro s
        rfl
    · exact ⟨rfl, rfl, hsession g _ fun _ => rfl⟩

theorem Tended.release {tasks : List Task} (h : Tended g among) (hlinked : Linked g)
    (htasks : g.tasks = .release p :: tasks) : Tended ({ g with tasks }.release p) among := by
  have hlinked : Linked { g with tasks } := ⟨hlinked.clients, hlinked.held, hlinked.fresh⟩
  obtain ⟨hnow, hscheduled, hclosed⟩ := release_rest { g with tasks } p
  refine ⟨fun x c hc hclose => ?_, fun x hx honline hconnecting => ?_⟩
  · rw [(release_players hlinked p x).2.2] at hc
    rw [hclosed] at hclose
    rw [hnow]
    split at hc
    · cases hc
    · rename_i hother
      have hmem := h.attended x c hc hclose
      rw [htasks] at hmem
      refine (List.mem_cons.mp hmem).resolve_left fun heq => hother ?_
      cases heq
      exact hc
  · obtain ⟨hsameOnline, hsameConnecting, -⟩ := release_players hlinked p x
    rw [hsameOnline] at honline
    rw [hsameConnecting] at hconnecting
    have hawaits := h.awaited x hx honline hconnecting
    rw [htasks] at hawaits
    rw [hnow, hscheduled]
    exact hawaits

/-! ## Steps and runs -/

theorem Game.AllTended.timer (h : g.AllTended) :
    Game.AllTended { g with scheduled := g.scheduled.erase (p, x), tasks := .connect p x :: g.tasks } := by
  refine h.grow (fun c => List.mem_cons_of_mem _) (fun y hy => ?_) (fun c hc => .inl hc)
    (fun _ => rfl) fun y honline hconnecting => ⟨honline, hconnecting⟩
  unfold awaits at hy ⊢
  rw [List.any_cons, Bool.or_eq_true, Bool.or_eq_true]
  obtain htasks | hscheduled := (Bool.or_eq_true _ _).mp hy
  · exact .inl (.inr htasks)
  · -- the call that moves may be the one for the player
    obtain ⟨⟨q, z⟩, hmem, hz⟩ := List.any_eq_true.mp hscheduled
    by_cases hqz : (q, z) = (p, x)
    · cases hqz
      exact .inl (.inl hz)
    · refine .inr (List.any_eq_true.mpr ⟨(q, z), ?_, hz⟩)
      exact (List.mem_erase_of_ne hqz).mpr hmem

theorem awaits_of_refused {message : String}
    (h : Game.AllTended ((g.session p fun s => { s with eventConnect := false }).disconnectClient p message))
    (honline : (g.players x).online = true) (hconnecting : (g.players x).isConnecting = true) :
    awaits g.scheduled x g.tasks = true := by
  have hplayers : ((g.session p fun s => { s with eventConnect := false }).disconnectClient p
      message).players = g.players := by
    unfold Game.disconnectClient Game.close
    dsimp only
    split <;> split <;> rfl
  have hawaits := h.awaited x trivial (by rw [hplayers]; exact honline) (by rw [hplayers]; exact hconnecting)
  unfold Game.disconnectClient at hawaits
  rw [awaits_close] at hawaits
  split at hawaits <;> exact hawaits

theorem connect_tended_iff {tasks : List Task} (h : g.AllTended) (htasks : g.tasks = .connect p x :: tasks)
    (answers : Answers) :
    (({ g with tasks } : Game).connect p x).AllTended ↔ untimely g (.dispatch answers) = false := by
  have hpop : Tended { g with tasks } fun y => True ∧ y ≠ x := by
    have hfirst := h.pop htasks fun q heq => by cases heq
    refine ⟨hfirst.attended, fun y hy => hfirst.awaited y ⟨trivial, ?_⟩⟩
    simpa [Task.brings] using Ne.symm hy.2
  have htime : untimely g (.dispatch answers) = false ↔ ((g.players x).online = true →
        if g.refuses p x then (g.players x).isConnecting = true → awaits g.scheduled x tasks = true
        else (g.sessions p).closed = true → .release p ∈ tasks) := by
    unfold untimely
    rw [htasks]
    dsimp only
    cases (g.players x).online <;> cases g.refuses p x <;> cases (g.players x).isConnecting <;>
      cases awaits g.scheduled x tasks <;> cases (g.sessions p).closed <;> simp
  rw [htime]
  refine ⟨fun hafter honline => ?_, hpop.connect⟩
  split
  · rename_i hrefuses
    intro hconnecting
    obtain ⟨message, heq | heq⟩ := @connect_of_refused { g with tasks } p x hrefuses
    · rw [heq] at hafter
      exact hafter.awaited x trivial honline hconnecting
    · rw [heq] at hafter
      exact awaits_of_refused hafter honline hconnecting
  · rename_i hlet
    rw [@connect_of_let_in { g with tasks } p x honline (eq_false_of_ne_true hlet)] at hafter
    intro hclosed
    refine hafter.attended x p (attach_client _ p x) ((attach_closed _ p x p).trans ?_)
    rw [session_self]
    exact hclosed

theorem Game.AllTended.login {name : String} {tasks : List Task} (h : g.AllTended) (hinv : Inv cfg g)
    (htasks : g.tasks = .login p name :: tasks) (answers : Answers) :
    (({ g with tasks } : Game).login cfg formatDateShort p name answers).AllTended := by
  have hpop : Game.AllTended { g with tasks } := by
    have hfirst := h.pop htasks fun q heq => by cases heq
    exact ⟨hfirst.attended, fun y _ => hfirst.awaited y ⟨trivial, rfl⟩⟩
  have hreleased : (g.sessions p).released = false := by
    refine hinv.queued.first p name ?_
    rw [htasks]
    exact List.mem_cons_self
  have hp : (g.sessions p).closed = true → .release p ∈ tasks := fun hclosed => by
    obtain hmem | hgone := (hinv.queued.closed p).mp hclosed
    · rw [htasks] at hmem
      exact (List.mem_cons.mp hmem).resolve_left fun heq => by cases heq
    · rw [hreleased] at hgone
      cases hgone
  unfold Game.login
  split
  · exact hpop.enter formatDateShort hp name answers
  · exact hpop.replace trivial hp

/-- A step leaves somebody behind exactly if it is an untimely call of `connect`. -/
theorem step_tended_iff (hinv : Inv cfg g) (h : g.AllTended) (e : Event) :
    (step cfg formatDateShort g e).AllTended ↔ untimely g e = false := by
  cases e with
  | receive p name =>
    refine ⟨fun _ => rfl, fun _ => ?_⟩
    simp only [Sessions.step]
    split
    · exact h
    · refine h.grow (fun c => List.mem_append_left _) (fun x hx => ?_) (fun c hc => .inl ?_)
        (fun _ => rfl) fun x honline hconnecting => ⟨honline, hconnecting⟩
      · unfold awaits at hx ⊢
        dsimp only [Game.session]
        rw [List.any_append, Bool.or_right_comm, hx, Bool.true_or]
      rw [← hc]
      exact (@session_field g p (fun s => { s with received := true }) _ Session.closed rfl c).symm
  | close p => exact ⟨fun _ => rfl, fun _ => Tended.close h p⟩
  | expire p =>
    refine ⟨fun _ => rfl, fun _ => ?_⟩
    simp only [Sessions.step]
    split
    · exact Tended.session h rfl
    · exact h
  | timer p x =>
    refine ⟨fun _ => rfl, fun _ => ?_⟩
    simp only [Sessions.step]
    split
    · exact h.timer
    · exact h
  | removePlayer x => exact ⟨fun _ => rfl, fun _ => Tended.removePlayer h x⟩
  | dispatch answers =>
    simp only [Sessions.step]
    split
    · rename_i htasks
      refine ⟨fun _ => ?_, fun _ => h⟩
      unfold untimely
      rw [htasks]
    · rename_i task tasks htasks
      cases task with
      | login p name =>
        refine ⟨fun _ => ?_, fun _ => h.login formatDateShort hinv htasks answers⟩
        unfold untimely
        rw [htasks]
      | connect p x => exact connect_tended_iff h htasks answers
      | release p =>
        refine ⟨fun _ => ?_, fun _ => Tended.release h hinv.linked htasks⟩
        unfold untimely
        rw [htasks]

/-- In a run from the start, every closed client of a player is about to be released and
every player who was thrown out is about to be taken over, in every state, exactly if no
call of `connect` comes at the wrong time. -/
theorem nobody_is_left_iff (events : List Event) :
    (∀ pre, pre <+: events → (run (step cfg formatDateShort) {} pre).AllTended) ↔
      Along (step cfg formatDateShort) (fun g e => untimely g e = false) {} events := by
  refine @inv_reached_iff_of_legal _ _ (step cfg formatDateShort) (fun _ _ => True) _ (Inv cfg)
    Game.AllTended (fun g e h _ => h.step formatDateShort e)
    (fun g e hinv h _ => step_tended_iff formatDateShort hinv h e) {} events start_inv ?_ ?_
  · refine ⟨fun x c hc => ?_, fun x _ honline => ?_⟩
    · cases hc
    · cases honline
  · exact Along.of_forall fun _ _ => trivial

end ForgottenServer.Login.Sessions
