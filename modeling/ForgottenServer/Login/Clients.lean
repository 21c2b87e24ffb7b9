import ForgottenServer.Login.Sessions

/-! # Players and their clients

A player's `client` and a session's `player` are set together and reset together, and
with them the reference that the session holds. -/
namespace ForgottenServer.Login.Sessions

variable (cfg : Config) (formatDateShort : ℤ → String)

/-- Players and sessions belong to each other, one to one. -/
structure Linked (g : Game) : Prop where
  clients : ∀ x p, (g.players x).client = some p ↔ (g.sessions p).player = some x
  held : ∀ x, (g.players x).held = if (g.players x).client.isSome then 1 else 0
  fresh : ∀ x, g.created ≤ x → (g.players x).client = none ∧ (g.players x).online = false

section Linked
variable {g : Game} {p x : ℕ}

/-- What `Linked` depends on. -/
structure SameLinks (g' g : Game) : Prop where
  sessions : ∀ p, (g'.sessions p).player = (g.sessions p).player
  clients : ∀ x, (g'.players x).client = (g.players x).client
  held : ∀ x, (g'.players x).held = (g.players x).held
  online : ∀ x, (g'.players x).online = true → (g.players x).online = true ∨ x < g.created
  created : g'.created = g.created

theorem Linked.of_same {g' : Game} (h : Linked g) (hsame : SameLinks g' g) : Linked g' where
  clients x p := by
    rw [hsame.clients, hsame.sessions]
    exact h.clients x p
  held x := by
    rw [hsame.held, hsame.clients]
    exact h.held x
  fresh x hx := by
    rw [hsame.created] at hx
    obtain ⟨hclient, honline⟩ := h.fresh x hx
    refine ⟨(hsame.clients x).trans hclient, Bool.eq_false_iff.mpr fun hnow => ?_⟩
    obtain hold | hlt := hsame.online x hnow
    · rw [honline] at hold
      cases hold
    · omega

theorem SameLinks.refl : SameLinks g g :=
  ⟨fun _ => rfl, fun _ => rfl, fun _ => rfl, fun _ => .inl, rfl⟩

theorem SameLinks.trans {g' g'' : Game} (h : SameLinks g'' g') (h' : SameLinks g' g) : SameLinks g'' g where
  sessions p := (h.sessions p).trans (h'.sessions p)
  clients x := (h.clients x).trans (h'.clients x)
  held x := (h.held x).trans (h'.held x)
  online x hx := by
    obtain hx | hx := h.online x hx
    · exact h'.online x hx
    · exact .inr (h'.created ▸ hx)
  created := h.created.trans h'.created

theorem sameLinks_session {f : Session → Session}
    (h : (f (g.sessions p)).player = (g.sessions p).player) : SameLinks (g.session p f) g :=
  ⟨session_field Session.player h, fun _ => rfl, fun _ => rfl, fun _ => .inl, rfl⟩

theorem sameLinks_player {k : Player → Player} (hclient : (k (g.players x)).client = (g.players x).client)
    (hheld : (k (g.players x)).held = (g.players x).held)
    (honline : (k (g.players x)).online = true → (g.players x).online = true ∨ x < g.created) :
    SameLinks (g.player x k) g where
  sessions _ := rfl
  clients := player_field Player.client hclient
  held := player_field Player.held hheld
  online y hy := by
    by_cases hxy : y = x
    · rw [hxy, player_self] at hy
      rw [hxy]
      exact honline hy
    · rw [player_of_ne hxy] at hy
      exact .inl hy
  created := rfl

theorem SameLinks.congr {g' g'' : Game} (h : SameLinks g' g) (hsessions : g''.sessions = g'.sessions)
    (hplayers : g''.players = g'.players) (hcreated : g''.created = g'.created) : SameLinks g'' g where
  sessions p := by rw [hsessions, h.sessions]
  clients x := by rw [hplayers, h.clients]
  held x := by rw [hplayers, h.held]
  online x hx := h.online x (hplayers ▸ hx)
  created := hcreated.trans h.created

theorem sameLinks_close (p : ℕ) : SameLinks (g.close p) g := by
  unfold Game.close
  split
  · exact .refl
  · exact (@sameLinks_session g p (fun s => { s with closed := true }) rfl).congr rfl rfl rfl

theorem sameLinks_disconnectClient (p : ℕ) (message : String) : SameLinks (g.disconnectClient p message) g := by
  unfold Game.disconnectClient
  refine (sameLinks_close p).trans ?_
  split
  · exact .refl
  · exact sameLinks_session rfl

theorem sameLinks_addPlayer (hx : x < g.created) : SameLinks (g.addPlayer x) g :=
  (@sameLinks_player g x (fun y => { y with online := true }) rfl rfl fun _ => .inr hx).congr
    rfl rfl rfl

theorem sameLinks_removePlayer (x : ℕ) : SameLinks (g.removePlayer x) g := by
  unfold Game.removePlayer
  split
  · rename_i honline
    exact (@sameLinks_player g x (fun y => { y with online := false }) rfl rfl
      fun _ => .inl honline).congr rfl rfl rfl
  · exact .refl

theorem Linked.join {g' : Game} {s : Session} {y : Player} (h : Linked g) (hp : (g.sessions p).player = none)
    (hx : (g.players x).client = none) (hsessions : g'.sessions = Function.update g.sessions p s)
    (hs : s.player = some x) (hplayers : g'.players = Function.update g.players x y) (hclient : y.client = some p)
    (hheld : y.held = 1) (hcreated : x < g'.created) (hgrows : g.created ≤ g'.created) : Linked g' where
  clients z q := by
    rw [hsessions, hplayers]
    by_cases hz : z = x <;> by_cases hq : q = p
    · rw [hz, hq, Function.update_self, Function.update_self, hclient, hs]
      exact ⟨fun _ => rfl, fun _ => rfl⟩
    · -- another session had the player
      rw [hz, Function.update_self, Function.update_of_ne hq, hclient]
      refine ⟨fun hqp => absurd (Option.some.inj hqp).symm hq, fun hother => ?_⟩
      rw [(h.clients x q).mpr hother] at hx
      cases hx
    · -- the session had another player
      rw [hq, Function.update_self, Function.update_of_ne hz, hs]
      refine ⟨fun hother => ?_, fun hzx => absurd (Option.some.inj hzx).symm hz⟩
      rw [(h.clients z p).mp hother] at hp
      cases hp
    · rw [Function.update_of_ne hz, Function.update_of_ne hq]
      exact h.clients z q
  held z := by
    rw [hplayers]
    by_cases hz : z = x
    · rw [hz, Function.update_self, hclient, hheld]
      rfl
    · rw [Function.update_of_ne hz]
      exact h.held z
  fresh z hz := by
    have hne : z ≠ x := by omega
    rw [hplayers, Function.update_of_ne hne]
    exact h.fresh z (by omega)

theorem Linked.lt_created (h : Linked g) (hx : (g.players x).online = true) : x < g.created := by
  by_contra hle
  rw [(h.fresh x (Nat.le_of_not_lt hle)).2] at hx
  cases hx

theorem Linked.attach (h : Linked g) (hp : (g.sessions p).player = none) (hx : (g.players x).client = none)
    (honline : (g.players x).online = true) : Linked (g.attach p x) := by
  refine h.join hp hx rfl rfl rfl rfl ?_ (h.lt_created honline) le_rfl
  have hheld := h.held x
  rw [hx] at hheld
  dsimp only
  rw [hheld]
  rfl

theorem Linked.create (h : Linked g) (hp : (g.sessions p).player = none) (name : String)
    (character : Character) : Linked (g.create p name character) :=
  h.join hp (h.fresh g.created le_rfl).1 rfl rfl rfl rfl rfl (Nat.lt_succ_self _) (Nat.le_succ _)

theorem Linked.part {g' : Game} {s : Session} {y : Player} (h : Linked g) (hp : (g.sessions p).player = some x)
    (hsessions : g'.sessions = Function.update g.sessions p s) (hs : s.player = none)
    (hplayers : g'.players = Function.update g.players x y) (hclient : y.client = none) (hheld : y.held = 0)
    (honline : y.online = (g.players x).online) (hcreated : g'.created = g.created) : Linked g' where
  clients z q := by
    rw [hsessions, hplayers]
    by_cases hz : z = x <;> by_cases hq : q = p
    · rw [hz, hq, Function.update_self, Function.update_self, hclient, hs]
      exact ⟨fun h => (Option.some_ne_none _ h.symm).elim, fun h => (Option.some_ne_none _ h.symm).elim⟩
    · -- nobody else had the player
      rw [hz, Function.update_self, Function.update_of_ne hq, hclient]
      refine ⟨fun h => (Option.some_ne_none _ h.symm).elim, fun hother => ?_⟩
      have hboth := (h.clients x q).mpr hother
      rw [(h.clients x p).mpr hp] at hboth
      exact absurd (Option.some.inj hboth).symm hq
    · -- the session had nobody else
      rw [hq, Function.update_self, Function.update_of_ne hz, hs]
      refine ⟨fun hother => ?_, fun h => (Option.some_ne_none _ h.symm).elim⟩
      have hboth := (h.clients z p).mp hother
      rw [hp] at hboth
      exact absurd (Option.some.inj hboth).symm hz
    · rw [Function.update_of_ne hz, Function.update_of_ne hq]
      exact h.clients z q
  held z := by
    rw [hplayers]
    by_cases hz : z = x
    · rw [hz, Function.update_self, hclient, hheld]
      rfl
    · rw [Function.update_of_ne hz]
      exact h.held z
  fresh z hz := by
    rw [hcreated] at hz
    rw [hplayers]
    by_cases hzx : z = x
    · rw [hzx, Function.update_self, hclient, honline, ← hzx]
      exact ⟨rfl, (h.fresh z hz).2⟩
    · rw [Function.update_of_ne hzx]
      exact h.fresh z hz

theorem Linked.release (h : Linked g) (p : ℕ) : Linked (g.release p) := by
  unfold Game.release
  cases hp : (g.sessions p).player with
  | none => exact h.of_same (sameLinks_session rfl)
  | some x =>
    have hclient := (h.clients x p).mpr hp
    dsimp only
    rw [if_pos hclient]
    refine Linked.of_same ?_ (sameLinks_session rfl)
    refine h.part hp rfl rfl rfl rfl ?_ rfl rfl
    have hheld := h.held x
    rw [hclient] at hheld
    dsimp only
    rw [hheld]
    rfl

theorem Linked.connect (h : Linked g) (hp : (g.sessions p).player = none) (x : ℕ) : Linked (g.connect p x) := by
  unfold Game.connect
  have hsame : SameLinks (g.session p fun s => { s with eventConnect := false }) g :=
    sameLinks_session rfl
  have hnext := h.of_same hsame
  dsimp only
  split
  · exact hnext.of_same (sameLinks_disconnectClient p _)
  · rename_i hfree
    split
    · exact hnext
    · rw [Bool.or_eq_true, not_or] at hfree
      obtain ⟨honline, hclient⟩ := hfree
      refine hnext.attach ((hsame.sessions p).trans hp) ?_ ?_
      · exact Option.not_isSome_iff_eq_none.mp hclient
      · simpa using honline

theorem Linked.enter (h : Linked g) (hp : (g.sessions p).player = none) (name : String)
    (answers : Answers) : Linked (g.enter cfg formatDateShort p name answers) := by
  unfold Game.enter
  have hcreate := h.create hp name (answers.character.getD {})
  dsimp only
  split
  · exact hcreate.of_same (sameLinks_disconnectClient p _)
  · refine hcreate.of_same ((sameLinks_session rfl).trans (sameLinks_addPlayer ?_))
    exact Nat.lt_succ_self g.created

theorem sameLinks_kick (p x c : ℕ) : SameLinks (((g.close c).player x fun y =>
    { y with isConnecting := true }).session p fun s => { s with eventConnect := true }) g := by
  refine (sameLinks_session rfl).trans (SameLinks.trans ?_ (sameLinks_close c))
  exact sameLinks_player rfl rfl fun h => .inl h

theorem Linked.replace (h : Linked g) (hp : (g.sessions p).player = none) (x : ℕ) : Linked (g.replace cfg p x) := by
  unfold Game.replace
  split
  · exact h.of_same (sameLinks_disconnectClient p _)
  · dsimp only
    refine Linked.of_same ?_ (sameLinks_session rfl)
    split
    · exact h.connect hp x
    · rename_i c hclient
      exact h.of_same ((sameLinks_kick p x c).congr rfl rfl rfl)

theorem Linked.perform (h : Linked g) (answers : Answers) {task : Task}
    (htask : ∀ p, task.joins p = true → (g.sessions p).player = none) :
    Linked (g.perform cfg formatDateShort answers task) := by
  cases task with
  | login p name =>
    have hp := htask p (by simp [Task.joins])
    change Linked (g.login cfg formatDateShort p name answers)
    unfold Game.login
    split
    · exact h.enter cfg formatDateShort hp name answers
    · rename_i x hfound
      exact h.replace cfg hp x
  | connect p x => exact h.connect (htask p (by simp [Task.joins])) x
  | release p => exact h.release p

end Linked

end ForgottenServer.Login.Sessions
