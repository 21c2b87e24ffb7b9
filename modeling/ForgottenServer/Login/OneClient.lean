import ForgottenServer.Login.Clients
import ForgottenServer.Login.Tasks

/-! # One player, one client

The names and the accounts of the players in the game, and what holds of sessions and
players in every state. -/
namespace ForgottenServer.Login.Sessions
open ForgottenServer.Lib.Run

variable (cfg : Config) (formatDateShort : ℤ → String)

/-! ## Names and accounts -/

/-- The game knows its players by their names. -/
structure Named (g : Game) : Prop where
  mapped : ∀ n x, g.mappedPlayerNames n = some x → (g.players x).online = true ∧ (g.players x).name.toLower = n
  names : cfg.allowClones = false → ∀ x, (g.players x).online = true → (g.players x).name ≠ "" →
    g.mappedPlayerNames (g.players x).name.toLower = some x
  accounts : cfg.onePlayerOnAccount = true → ∀ x y, (g.players x).online = true →
    (g.players y).online = true → (g.players x).account = (g.players y).account →
    (g.players x).accountType < accountTypeGamemaster →
    (g.players y).accountType < accountTypeGamemaster → x = y

section Named
variable {cfg} {g : Game} {p x : ℕ}

/-- The part of a player that `Named` is about. -/
def Player.card (y : Player) : String × ℕ × ℕ × Bool := (y.name, y.account, y.accountType, y.online)

theorem Named.of_card {g' : Game} (h : Named cfg g) (hnames : g'.mappedPlayerNames = g.mappedPlayerNames)
    (hcard : ∀ x, (g'.players x).online = true ∨ (g.players x).online = true →
      (g'.players x).card = (g.players x).card) : Named cfg g' := by
  have hfields : ∀ {x}, (g'.players x).online = true ∨ (g.players x).online = true →
      (g'.players x).name = (g.players x).name ∧ (g'.players x).account = (g.players x).account ∧
      (g'.players x).accountType = (g.players x).accountType ∧
      (g'.players x).online = (g.players x).online := fun hx =>
    ⟨congrArg Prod.fst (hcard _ hx), congrArg (fun t => t.2.1) (hcard _ hx),
      congrArg (fun t => t.2.2.1) (hcard _ hx), congrArg (fun t => t.2.2.2) (hcard _ hx)⟩
  refine ⟨fun n x hx => ?_, fun hclones x hx hname => ?_, fun hone x y hx hy => ?_⟩
  · rw [hnames] at hx
    obtain ⟨honline, hname⟩ := h.mapped n x hx
    obtain ⟨hn, -, -, ho⟩ := hfields (.inr honline)
    exact ⟨ho.trans honline, hn ▸ hname⟩
  · obtain ⟨hn, -, -, ho⟩ := hfields (.inl hx)
    rw [hn] at hname ⊢
    rw [hnames]
    exact h.names hclones x (ho ▸ hx) hname
  · obtain ⟨-, hax, htx, hox⟩ := hfields (.inl hx)
    obtain ⟨-, hay, hty, hoy⟩ := hfields (.inl hy)
    rw [hax, hay, htx, hty]
    exact h.accounts hone x y (hox ▸ hx) (hoy ▸ hy)

theorem eq_empty_of_toLower {s t : String} (h : s.toLower = t.toLower) (hs : s = "") : t = "" := by
  have hmap : s.map Char.toLower = t.map Char.toLower := h
  have hlist := congrArg String.toList hmap
  rw [String.toList_map, String.toList_map, hs] at hlist
  simpa using hlist.symm

theorem Named.addPlayer (h : Named cfg g) (hname : cfg.allowClones = false → (g.players x).name ≠ "" →
      g.mappedPlayerNames (g.players x).name.toLower = none)
    (haccount : cfg.onePlayerOnAccount = true → (g.players x).accountType < accountTypeGamemaster →
      ∀ y, (g.players y).online = true → (g.players y).account ≠ (g.players x).account) :
    Named cfg (g.addPlayer x) := by
  have hother : ∀ y, y ≠ x → (g.addPlayer x).players y = g.players y := fun y hy =>
    Function.update_of_ne hy ..
  have hself : (g.addPlayer x).players x = { g.players x with online := true } :=
    Function.update_self ..
  have hmap : ∀ n, n ≠ (g.players x).name.toLower →
      (g.addPlayer x).mappedPlayerNames n = g.mappedPlayerNames n := fun n hn =>
    Function.update_of_ne hn ..
  have hmapSelf : (g.addPlayer x).mappedPlayerNames (g.players x).name.toLower = some x :=
    Function.update_self ..
  refine ⟨fun n y hy => ?_, fun hclones y hy hn => ?_, fun hone y z hy hz hsame hty htz => ?_⟩
  · by_cases hn : n = (g.players x).name.toLower
    · rw [hn, hmapSelf] at hy
      cases hy
      rw [hself]
      exact ⟨rfl, hn.symm⟩
    · rw [hmap n hn] at hy
      obtain ⟨honline, hlower⟩ := h.mapped n y hy
      by_cases hyx : y = x
      · rw [hyx] at hlower
        exact absurd hlower.symm hn
      · rw [hother y hyx]
        exact ⟨honline, hlower⟩
  · by_cases hyx : y = x
    · rw [hyx, hself]
      exact hmapSelf
    · rw [hother y hyx] at hy hn ⊢
      have hold := h.names hclones y hy hn
      rw [hmap _ fun hlower => ?_]
      · exact hold
      · -- nobody was known by the name
        have hnx : (g.players x).name ≠ "" := fun hempty =>
          hn (eq_empty_of_toLower hlower.symm hempty)
        rw [hlower, hname hclones hnx] at hold
        cases hold
  · by_cases hyx : y = x <;> by_cases hzx : z = x
    · rw [hyx, hzx]
    · rw [hyx, hself, hother z hzx] at hsame
      rw [hyx, hself] at hty
      rw [hother z hzx] at hz
      exact absurd hsame.symm (haccount hone hty z hz)
    · rw [hzx, hself, hother y hyx] at hsame
      rw [hzx, hself] at htz
      rw [hother y hyx] at hy
      exact absurd hsame (haccount hone htz y hy)
    · rw [hother y hyx] at hy hsame hty
      rw [hother z hzx] at hz hsame htz
      exact h.accounts hone y z hy hz hsame hty htz

theorem Named.removePlayer (h : Named cfg g) (x : ℕ) : Named cfg (g.removePlayer x) := by
  unfold Game.removePlayer
  split
  · rename_i honline
    have hother : ∀ y, y ≠ x → (g.player x fun y => { y with online := false }).players y = g.players y := fun y hy =>
      player_of_ne hy
    have hgone : ∀ {y}, ((g.player x fun y => { y with online := false }).players y).online = true →
        y ≠ x := by
      rintro y hy rfl
      rw [player_self] at hy
      cases hy
    refine ⟨fun n y hy => ?_, fun hclones y hy hn => ?_, fun hone y z hy hz hsame hty htz => ?_⟩
    · dsimp only at hy ⊢
      by_cases hn : n = (g.players x).name.toLower
      · rw [hn, Function.update_self] at hy
        cases hy
      · rw [Function.update_of_ne hn] at hy
        obtain ⟨hyo, hlower⟩ := h.mapped n y hy
        have hyx : y ≠ x := by
          rintro rfl
          exact hn hlower.symm
        rw [hother y hyx]
        exact ⟨hyo, hlower⟩
    · have hyx := hgone hy
      dsimp only at hy hn ⊢
      rw [hother y hyx] at hy hn ⊢
      have hold := h.names hclones y hy hn
      rw [Function.update_of_ne fun hlower => ?_]
      · exact hold
      · have hnx : (g.players x).name ≠ "" := fun hempty =>
          hn (eq_empty_of_toLower hlower.symm hempty)
        rw [hlower, h.names hclones x honline hnx] at hold
        exact hyx (Option.some.inj hold).symm
    · have hyx := hgone hy
      have hzx := hgone hz
      dsimp only at hy hz hsame hty htz
      rw [hother y hyx] at hy hsame hty
      rw [hother z hzx] at hz hsame htz
      exact h.accounts hone y z hy hz hsame hty htz
  · exact h

/-- The names are the same, and nobody's card has changed. -/
structure SameCards (g' g : Game) : Prop where
  names : g'.mappedPlayerNames = g.mappedPlayerNames
  cards : ∀ x, (g'.players x).card = (g.players x).card

theorem SameCards.refl : SameCards g g := ⟨rfl, fun _ => rfl⟩

theorem SameCards.trans {g' g'' : Game} (h : SameCards g'' g') (h' : SameCards g' g) : SameCards g'' g :=
  ⟨h.names.trans h'.names, fun x => (h.cards x).trans (h'.cards x)⟩

theorem Named.of_same {g' : Game} (h : Named cfg g) (hsame : SameCards g' g) : Named cfg g' :=
  h.of_card hsame.names fun x _ => hsame.cards x

theorem sameCards_session {f : Session → Session} : SameCards (g.session p f) g :=
  ⟨rfl, fun _ => rfl⟩

theorem sameCards_player {k : Player → Player} (hk : (k (g.players x)).card = (g.players x).card) :
    SameCards (g.player x k) g :=
  ⟨rfl, player_field Player.card hk⟩

theorem sameCards_close (p : ℕ) : SameCards (g.close p) g := by
  unfold Game.close
  split
  · exact .refl
  · exact ⟨rfl, fun _ => rfl⟩

theorem sameCards_disconnectClient (p : ℕ) (message : String) : SameCards (g.disconnectClient p message) g := by
  unfold Game.disconnectClient
  refine (sameCards_close p).trans ?_
  split
  · exact .refl
  · exact ⟨rfl, fun _ => rfl⟩

theorem sameCards_connect (p x : ℕ) : SameCards (g.connect p x) g := by
  unfold Game.connect
  have hfirst : SameCards (g.session p fun s => { s with eventConnect := false }) g :=
    ⟨rfl, fun _ => rfl⟩
  dsimp only
  split
  · exact (sameCards_disconnectClient p _).trans hfirst
  · split
    · exact hfirst
    · have hplayer := @sameCards_player (g.session p fun s => { s with eventConnect := false }) x
        (fun y => { y with client := some p, isConnecting := false, held := y.held + 1 }) rfl
      exact SameCards.trans ⟨hplayer.names, hplayer.cards⟩ hfirst

theorem sameCards_release (p : ℕ) : SameCards (g.release p) g := by
  unfold Game.release
  split
  · exact ⟨rfl, fun _ => rfl⟩
  · rename_i x hx
    split
    · have hplayer := @sameCards_player g x (fun y => { y with client := none, held := y.held - 1 }) rfl
      exact ⟨hplayer.names, hplayer.cards⟩
    · exact ⟨rfl, fun _ => rfl⟩

theorem sameCards_replace (p x : ℕ) : SameCards (g.replace cfg p x) g := by
  unfold Game.replace
  split
  · exact sameCards_disconnectClient p _
  · dsimp only
    refine SameCards.trans sameCards_session ?_
    split
    · exact sameCards_connect p x
    · rename_i c hclient
      have hplayer := @sameCards_player (g.close c) x (fun y => { y with isConnecting := true }) rfl
      exact SameCards.trans ⟨hplayer.names, hplayer.cards⟩ (sameCards_close c)

theorem account_of_admitted {formatDateShort : ℤ → String} {answers : Answers}
    (h : refusal cfg formatDateShort g answers = none) :
    ∃ character, answers.character = some character ∧ (cfg.onePlayerOnAccount = true →
      character.accountType < accountTypeGamemaster → g.hasPlayerOfAccount character.account = false) := by
  unfold refusal at h
  cases hcharacter : answers.character with
  | none =>
    rw [hcharacter] at h
    cases h
  | some character =>
    refine ⟨character, rfl, fun hone hordinary => ?_⟩
    rw [hcharacter] at h
    by_contra htaken
    have htaken := eq_true_of_ne_false htaken
    simp only [hone, hordinary, htaken, and_self, if_true] at h
    split at h
    · cases h
    · split at h
      · cases h
      · split at h <;> cases h

theorem Named.enter (h : Named cfg g) (hlinked : Linked g) (name : String) (answers : Answers)
    (formatDateShort : ℤ → String)
    (hname : cfg.allowClones = false → name ≠ "" → g.mappedPlayerNames name.toLower = none) :
    Named cfg (g.enter cfg formatDateShort p name answers) := by
  unfold Game.enter
  have hself : (g.create p name (answers.character.getD {})).players g.created = {
      name
      account := (answers.character.getD {}).account
      accountType := (answers.character.getD {}).accountType
      client := some p
      held := 1 } := Function.update_self ..
  have hother : ∀ y, y ≠ g.created →
      (g.create p name (answers.character.getD {})).players y = g.players y := fun y hy =>
    Function.update_of_ne hy ..
  have hcreate : Named cfg (g.create p name (answers.character.getD {})) := by
    refine h.of_card rfl fun y hy => ?_
    by_cases hyx : y = g.created
    · -- the new player is not in the game yet, and nobody was at its address
      rw [hyx, hself, (hlinked.fresh g.created le_rfl).2] at hy
      obtain hy | hy := hy <;> cases hy
    · rw [hother y hyx]
  dsimp only
  split
  · exact hcreate.of_same (sameCards_disconnectClient p _)
  · rename_i hadmitted
    obtain ⟨character, hcharacter, haccount⟩ := account_of_admitted hadmitted
    refine (hcreate.addPlayer (x := g.created) ?_ ?_).of_same ⟨rfl, fun _ => rfl⟩
    · rw [hself]
      exact hname
    · have hgetD : answers.character.getD {} = character := by rw [hcharacter]; rfl
      rw [hself, hgetD]
      rw [hgetD] at haccount hother hself
      intro hone hordinary y hy hsame
      have hyx : y ≠ g.created := by
        rintro rfl
        rw [hself] at hy
        cases hy
      have hlt : y < g.created + 1 := by
        rw [hother y hyx] at hy
        exact Nat.lt_succ_of_lt (hlinked.lt_created hy)
      have hnone := List.any_eq_false.mp (haccount hone hordinary) y (List.mem_range.mpr hlt)
      refine hnone ?_
      rw [hy, hsame]
      simp

theorem Named.perform (h : Named cfg g) (hlinked : Linked g) (formatDateShort : ℤ → String) (answers : Answers)
    (task : Task) : Named cfg (g.perform cfg formatDateShort answers task) := by
  cases task with
  | login p name =>
    change Named cfg (g.login cfg formatDateShort p name answers)
    unfold Game.login
    split
    · rename_i hfound
      refine h.enter hlinked name answers formatDateShort fun hclones hname => ?_
      rw [hclones, if_neg Bool.false_ne_true] at hfound
      unfold Game.getPlayerByName at hfound
      rwa [if_neg hname] at hfound
    · rename_i x hfound
      exact h.of_same (sameCards_replace p x)
  | connect p x => exact h.of_same (sameCards_connect p x)
  | release p => exact h.of_same (sameCards_release p)

end Named

/-! ## Runs -/

structure Inv (g : Game) : Prop where
  linked : Linked g
  queued : Queued g
  named : Named cfg g

section Runs
variable {cfg} {g : Game}

theorem Inv.dispatch (h : Inv cfg g) {task : Task} {tasks : List Task} (htasks : g.tasks = task :: tasks)
    (answers : Answers) : Inv cfg ({ g with tasks }.perform cfg formatDateShort answers task) := by
  have hlinked : Linked { g with tasks } := ⟨h.linked.clients, h.linked.held, h.linked.fresh⟩
  have hnamed : Named cfg { g with tasks } := ⟨h.named.mapped, h.named.names, h.named.accounts⟩
  refine ⟨?_, h.queued.perform cfg formatDateShort htasks answers, hnamed.perform hlinked formatDateShort answers task⟩
  refine hlinked.perform cfg formatDateShort answers fun p hp => ?_
  have htask : ∀ q, task ≠ .release q := by
    rintro q rfl
    cases hp
  exact ((h.queued.pop htasks htask).2.1 p hp).player

theorem Inv.step (h : Inv cfg g) (e : Event) : Inv cfg (step cfg formatDateShort g e) := by
  cases e with
  | receive p name =>
    simp only [Sessions.step]
    split
    · exact h
    · rename_i hnew
      rw [Bool.or_eq_true, not_or] at hnew
      refine ⟨?_, ?_, ?_⟩
      · exact h.linked.of_same ((@sameLinks_session g p (fun s => { s with received := true })
          rfl).congr rfl rfl rfl)
      · exact h.queued.receive (eq_false_of_ne_true hnew.1) (eq_false_of_ne_true hnew.2) name
      · exact h.named.of_same ⟨rfl, fun _ => rfl⟩
  | close p =>
    exact ⟨h.linked.of_same (sameLinks_close p), h.queued.close p, h.named.of_same (sameCards_close p)⟩
  | expire p =>
    simp only [Sessions.step]
    split
    · rename_i hclosed
      refine ⟨h.linked.of_same (sameLinks_session rfl), ?_, h.named.of_same sameCards_session⟩
      exact h.queued.expire hclosed
    · exact h
  | timer p x =>
    simp only [Sessions.step]
    split
    · rename_i hscheduled
      exact ⟨⟨h.linked.clients, h.linked.held, h.linked.fresh⟩, h.queued.timer hscheduled,
        ⟨h.named.mapped, h.named.names, h.named.accounts⟩⟩
    · exact h
  | dispatch answers =>
    simp only [Sessions.step]
    split
    · exact h
    · rename_i task tasks htasks
      exact h.dispatch formatDateShort htasks answers
  | removePlayer x =>
    refine ⟨h.linked.of_same (sameLinks_removePlayer x), ?_, h.named.removePlayer x⟩
    exact h.queued.removePlayer x

theorem start_inv : Inv cfg {} where
  linked := ⟨by simp, by simp, by simp⟩
  queued := ⟨by simp [Game.pending], by simp, by simp, .nil, by simp, by simp⟩
  named := ⟨by simp, by simp, by simp⟩

theorem run_inv (events : List Event) : Inv cfg (run (step cfg formatDateShort) {} events) := by
  refine @inv_run _ _ (step cfg formatDateShort) (fun _ _ => True) (Inv cfg)
    (fun _ e h _ => h.step formatDateShort e) _ _ start_inv ?_
  exact Along.of_forall fun _ _ => trivial

end Runs

/-- What sessions and players agree on. -/
structure Agree (g : Game) : Prop where
  clients : ∀ x p, (g.players x).client = some p ↔ (g.sessions p).player = some x
  held : ∀ x, (g.players x).held = if (g.players x).client.isSome then 1 else 0
  names : cfg.allowClones = false → ∀ x y, (g.players x).online = true →
    (g.players y).online = true → (g.players x).name ≠ "" →
    (g.players x).name.toLower = (g.players y).name.toLower → x = y
  accounts : cfg.onePlayerOnAccount = true → ∀ x y, (g.players x).online = true →
    (g.players y).online = true → (g.players x).account = (g.players y).account →
    (g.players x).accountType < accountTypeGamemaster →
    (g.players y).accountType < accountTypeGamemaster → x = y
  autosend : ∀ p, (g.sessions p).released = true → (g.sessions p).autosend = false

/-- However logins, closed connections, timers and logouts follow on each other, a player
has one client at most and a client one player, who counts this one reference; nobody is
in the game twice under one name, nor under one account where that is forbidden; and a
session that is over has no place in the pool. -/
theorem one_client_a_player (events : List Event) : Agree cfg (run (step cfg formatDateShort) {} events) := by
  obtain ⟨hlinked, hqueued, hnamed⟩ := @run_inv cfg formatDateShort events
  refine ⟨hlinked.clients, hlinked.held, fun hclones x y hx hy hname hsame => ?_, hnamed.accounts, hqueued.autosend⟩
  have hnamey : ((run (step cfg formatDateShort) {} events).players y).name ≠ "" := fun hempty =>
    hname (eq_empty_of_toLower hsame.symm hempty)
  have hx := hnamed.names hclones x hx hname
  rw [hsame, hnamed.names hclones y hy hnamey] at hx
  exact (Option.some.inj hx).symm

end ForgottenServer.Login.Sessions
