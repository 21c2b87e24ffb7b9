import ForgottenServer.Login.Sessions

/-! # The tasks of a session

A session is logged in once, before it is released, and has one call of `connect` on its
way at most, none of them once it has a player. -/
namespace ForgottenServer.Login.Sessions

variable (cfg : Config) (formatDateShort : ℤ → String)

/-- The tasks on their way that may give the session a player. -/
def Game.pending (g : Game) (p : ℕ) : ℕ :=
  g.tasks.countP (·.joins p) + g.scheduled.countP (·.1 = p)

/-- The second task would log in a session that the first one has released. -/
def Task.outlives (a b : Task) : Prop := ∃ p name, a = .release p ∧ b = .login p name

structure Queued (g : Game) : Prop where
  joined : ∀ p, g.pending p + (if (g.sessions p).player.isSome then 1 else 0) ≤
    if (g.sessions p).received then 1 else 0
  closed : ∀ p, (g.sessions p).closed = true ↔ .release p ∈ g.tasks ∨ (g.sessions p).released = true
  expired : ∀ p, (g.sessions p).expired = true → (g.sessions p).closed = true
  ordered : g.tasks.Pairwise fun a b => ¬a.outlives b
  first : ∀ p name, .login p name ∈ g.tasks → (g.sessions p).released = false
  autosend : ∀ p, (g.sessions p).released = true → (g.sessions p).autosend = false

/-- The session is about to get a player. -/
structure Free (g : Game) (p : ℕ) : Prop where
  pending : g.pending p = 0
  player : (g.sessions p).player = none
  received : (g.sessions p).received = true

section Queued
variable {g : Game} {p x : ℕ}

/-- The part of a session that `Queued` is about, without its player. -/
def Session.state (s : Session) : Bool × Bool × Bool × Bool × Bool :=
  (s.received, s.closed, s.expired, s.released, s.autosend)

theorem Queued.of_state {g' : Game} (h : Queued g) (htasks : g'.tasks = g.tasks)
    (hscheduled : g'.scheduled = g.scheduled) (hstate : ∀ p, (g'.sessions p).state = (g.sessions p).state)
    (hplayer : ∀ p, (g'.sessions p).player.isSome → (g.sessions p).player.isSome ∨ Free g p) : Queued g' := by
  have hreceived : ∀ p, (g'.sessions p).received = (g.sessions p).received := fun p =>
    congrArg Prod.fst (hstate p)
  have hclosed : ∀ p, (g'.sessions p).closed = (g.sessions p).closed := fun p =>
    congrArg (fun t => t.2.1) (hstate p)
  have hexpired : ∀ p, (g'.sessions p).expired = (g.sessions p).expired := fun p =>
    congrArg (fun t => t.2.2.1) (hstate p)
  have hreleased : ∀ p, (g'.sessions p).released = (g.sessions p).released := fun p =>
    congrArg (fun t => t.2.2.2.1) (hstate p)
  have hautosend : ∀ p, (g'.sessions p).autosend = (g.sessions p).autosend := fun p =>
    congrArg (fun t => t.2.2.2.2) (hstate p)
  refine ⟨fun p => ?_, fun p => ?_, fun p => ?_, ?_, fun p name => ?_, fun p => ?_⟩
  · have hpending : g'.pending p = g.pending p := by rw [Game.pending, htasks, hscheduled]; rfl
    have hjoined := h.joined p
    rw [hpending, hreceived]
    cases hsome : (g'.sessions p).player.isSome with
    | false =>
      rw [if_neg Bool.false_ne_true]
      omega
    | true =>
      obtain hold | hfree := hplayer p hsome
      · rwa [hold] at hjoined
      · rw [hfree.pending, hfree.received]
        exact le_rfl
  · rw [hclosed, hreleased, htasks]
    exact h.closed p
  · rw [hclosed, hexpired]
    exact h.expired p
  · rw [htasks]
    exact h.ordered
  · rw [htasks, hreleased]
    exact h.first p name
  · rw [hreleased, hautosend]
    exact h.autosend p

theorem Queued.session {f : Session → Session} (h : Queued g)
    (hstate : (f (g.sessions p)).state = (g.sessions p).state)
    (hplayer : (f (g.sessions p)).player.isSome → (g.sessions p).player.isSome ∨ Free g p) :
    Queued (g.session p f) := by
  refine h.of_state rfl rfl (session_field Session.state hstate) fun q hq => ?_
  by_cases hqp : q = p
  · rw [hqp] at hq ⊢
    rw [session_self] at hq
    exact hplayer hq
  · rw [session_of_ne hqp] at hq
    exact .inl hq

theorem ordered_append {tasks : List Task} {task : Task} (h : tasks.Pairwise fun a b => ¬a.outlives b)
    (htask : ∀ a ∈ tasks, ¬a.outlives task) : (tasks ++ [task]).Pairwise fun a b => ¬a.outlives b := by
  refine List.pairwise_append.mpr ⟨h, List.pairwise_singleton _ _, fun a ha b hb => ?_⟩
  rw [List.mem_singleton.mp hb]
  exact htask a ha

theorem Queued.close (h : Queued g) (p : ℕ) : Queued (g.close p) := by
  unfold Game.close
  split
  · exact h
  · have hsession : ∀ {β : Type} (field : Session → β),
        (∀ s : Session, field { s with closed := true } = field s) → ∀ q,
        field ((g.session p fun s => { s with closed := true }).sessions q) =
          field (g.sessions q) := fun field hfield => session_field field (hfield _)
    refine ⟨fun q => ?_, fun q => ?_, fun q hq => ?_, ?_, fun q name hlogin => ?_, fun q hq => ?_⟩
    · have hpending : (g.tasks ++ [Task.release p]).countP (·.joins q) = g.tasks.countP (·.joins q) := by
        rw [List.countP_append, List.countP_singleton]
        rfl
      have hjoined := h.joined q
      dsimp only [Game.pending] at hjoined ⊢
      rw [hpending, hsession Session.player fun _ => rfl, hsession Session.received fun _ => rfl]
      exact hjoined
    · dsimp only
      rw [hsession Session.released fun _ => rfl, List.mem_append, List.mem_singleton]
      by_cases hq : q = p
      · rw [hq, session_self]
        exact ⟨fun _ => .inl (.inr rfl), fun _ => rfl⟩
      · rw [session_of_ne hq]
        refine (h.closed q).trans (or_congr_left ?_)
        refine ⟨.inl, fun hmem => hmem.resolve_right fun heq => hq ?_⟩
        cases heq
        rfl
    · dsimp only at hq ⊢
      by_cases hqp : q = p
      · rw [hqp, session_self]
      · rw [session_of_ne hqp] at hq ⊢
        exact h.expired q hq
    · refine ordered_append h.ordered fun a _ houtlives => ?_
      obtain ⟨q, name, -, heq⟩ := houtlives
      cases heq
    · dsimp only at hlogin ⊢
      rw [hsession Session.released fun _ => rfl]
      refine h.first q name ((List.mem_append.mp hlogin).resolve_right fun heq => ?_)
      cases List.mem_singleton.mp heq
    · dsimp only at hq ⊢
      rw [hsession Session.released fun _ => rfl] at hq
      rw [hsession Session.autosend fun _ => rfl]
      exact h.autosend q hq

theorem Queued.disconnectClient (h : Queued g) (p : ℕ) (message : String) : Queued (g.disconnectClient p message) := by
  unfold Game.disconnectClient
  refine Queued.close ?_ p
  split
  · exact h
  · exact h.session rfl .inl

theorem Queued.attach (h : Queued g) (hfree : Free g p) (x : ℕ) : Queued (g.attach p x) := by
  refine h.of_state rfl rfl (fun q => ?_) fun q hq => ?_
  · exact @session_field g p (fun s => { s with player := some x, acceptPackets := true }) _
      Session.state rfl q
  · by_cases hqp : q = p
    · exact .inr (hqp ▸ hfree)
    · have hsame : (g.attach p x).sessions q = g.sessions q := Function.update_of_ne hqp ..
      rw [hsame] at hq
      exact .inl hq

theorem Queued.create (h : Queued g) (hfree : Free g p) (name : String) (character : Character) :
    Queued (g.create p name character) := by
  refine h.of_state rfl rfl (fun q => ?_) fun q hq => ?_
  · exact @session_field g p (fun s => { s with player := some g.created }) _ Session.state rfl q
  · by_cases hqp : q = p
    · exact .inr (hqp ▸ hfree)
    · have hsame : (g.create p name character).sessions q = g.sessions q :=
        Function.update_of_ne hqp ..
      rw [hsame] at hq
      exact .inl hq

theorem Queued.buffer (h : Queued g) (hp : (g.sessions p).released = false)
    (f : Session → Session) (hf : ∀ s : Session, f s = { s with autosend := true } ∨
      f s = { s with acceptPackets := true, autosend := true }) : Queued (g.session p f) := by
  have hsession : ∀ {β : Type} (field : Session → β),
      (∀ (s : Session) (a b : Bool), field { s with acceptPackets := a, autosend := b } = field s) →
      ∀ q, field ((g.session p f).sessions q) = field (g.sessions q) := by
    intro β field hfield
    refine session_field field ?_
    obtain heq | heq := hf (g.sessions p)
    · rw [heq]
      exact hfield (g.sessions p) (g.sessions p).acceptPackets true
    · rw [heq]
      exact hfield (g.sessions p) true true
  refine ⟨fun q => ?_, fun q => ?_, fun q => ?_, h.ordered, fun q name => ?_, fun q hq => ?_⟩
  · rw [hsession Session.player fun _ _ _ => rfl, hsession Session.received fun _ _ _ => rfl]
    exact h.joined q
  · rw [hsession Session.closed fun _ _ _ => rfl, hsession Session.released fun _ _ _ => rfl]
    exact h.closed q
  · rw [hsession Session.expired fun _ _ _ => rfl, hsession Session.closed fun _ _ _ => rfl]
    exact h.expired q
  · rw [hsession Session.released fun _ _ _ => rfl]
    exact h.first q name
  · rw [hsession Session.released fun _ _ _ => rfl] at hq
    by_cases hqp : q = p
    · rw [hqp, hp] at hq
      cases hq
    · rw [session_of_ne hqp]
      exact h.autosend q hq

theorem close_released (p q : ℕ) : ((g.close p).sessions q).released = (g.sessions q).released := by
  unfold Game.close
  split
  · rfl
  · exact @session_field g p (fun s => { s with closed := true }) _ Session.released rfl q

theorem disconnectClient_released (p : ℕ) (message : String) (q : ℕ) :
    ((g.disconnectClient p message).sessions q).released = (g.sessions q).released := by
  unfold Game.disconnectClient
  refine (close_released p q).trans ?_
  split
  · rfl
  · exact session_field Session.released rfl q

theorem connect_released (p x q : ℕ) : ((g.connect p x).sessions q).released = (g.sessions q).released := by
  unfold Game.connect
  have hfirst := @session_field g p (fun s => { s with eventConnect := false }) _
    Session.released rfl q
  dsimp only
  split
  · exact (disconnectClient_released p _ q).trans hfirst
  · split
    · exact hfirst
    · exact (session_field Session.released rfl q).trans hfirst

theorem Free.session {f : Session → Session} (h : Free g p)
    (hplayer : (f (g.sessions p)).player = (g.sessions p).player)
    (hreceived : (f (g.sessions p)).received = (g.sessions p).received) : Free (g.session p f) p where
  pending := h.pending
  player := (session_field Session.player hplayer p).trans h.player
  received := (session_field Session.received hreceived p).trans h.received

theorem Free.close (h : Free g p) (c : ℕ) : Free (g.close c) p := by
  unfold Game.close
  split
  · exact h
  · refine ⟨?_, ?_, ?_⟩
    · have hpending := h.pending
      unfold Game.pending at hpending ⊢
      rw [List.countP_append, List.countP_singleton]
      exact hpending
    · exact (@session_field g c (fun s => { s with closed := true }) _ Session.player rfl p).trans
        h.player
    · exact (@session_field g c (fun s => { s with closed := true }) _ Session.received rfl p).trans
        h.received

theorem Queued.connect (h : Queued g) (hfree : Free g p) (x : ℕ) : Queued (g.connect p x) := by
  unfold Game.connect
  have hnext : Queued (g.session p fun s => { s with eventConnect := false }) :=
    h.session rfl .inl
  dsimp only
  split
  · exact hnext.disconnectClient p _
  · split
    · exact hnext
    · exact hnext.attach (hfree.session rfl rfl) x

theorem Queued.enter (h : Queued g) (hfree : Free g p) (hp : (g.sessions p).released = false) (name : String)
    (answers : Answers) : Queued (g.enter cfg formatDateShort p name answers) := by
  unfold Game.enter
  have hcreate := h.create hfree name (answers.character.getD {})
  have hreleased : ((g.create p name (answers.character.getD {})).sessions p).released = false := by
    refine Eq.trans ?_ hp
    exact @session_field g p (fun s => { s with player := some g.created }) _ Session.released rfl p
  dsimp only
  split
  · exact hcreate.disconnectClient p _
  · refine Queued.buffer ?_ ?_ _ fun s => .inr rfl
    · exact ⟨hcreate.joined, hcreate.closed, hcreate.expired, hcreate.ordered, hcreate.first, hcreate.autosend⟩
    · exact hreleased

theorem Queued.schedule (h : Queued g) (hfree : Free g p) (x : ℕ) :
    Queued { g with scheduled := g.scheduled ++ [(p, x)] } := by
  refine ⟨fun q => ?_, h.closed, h.expired, h.ordered, h.first, h.autosend⟩
  have hjoined := h.joined q
  have hpending : ({ g with scheduled := g.scheduled ++ [(p, x)] } : Game).pending q =
      g.pending q + if p = q then 1 else 0 := by
    unfold Game.pending
    rw [List.countP_append, List.countP_singleton, ← Nat.add_assoc]
    simp
  rw [hpending]
  dsimp only
  split
  · rename_i hpq
    rw [← hpq, hfree.pending, hfree.player, hfree.received]
    rfl
  · exact hjoined

theorem Queued.kick (h : Queued g) (hfree : Free g p) (c x : ℕ) :
    Queued (((g.close c).player x fun y => { y with isConnecting := true }).session p
      fun s => { s with eventConnect := true }) ∧
    Free (((g.close c).player x fun y => { y with isConnecting := true }).session p
      fun s => { s with eventConnect := true }) p := by
  have hclose := h.close c
  have hfree := hfree.close c
  have hplayer : Queued ((g.close c).player x fun y => { y with isConnecting := true }) :=
    ⟨hclose.joined, hclose.closed, hclose.expired, hclose.ordered, hclose.first, hclose.autosend⟩
  have hfreePlayer : Free ((g.close c).player x fun y => { y with isConnecting := true }) p :=
    ⟨hfree.pending, hfree.player, hfree.received⟩
  exact ⟨hplayer.session rfl .inl, hfreePlayer.session rfl rfl⟩

theorem Queued.replace (h : Queued g) (hfree : Free g p) (hp : (g.sessions p).released = false)
    (x : ℕ) : Queued (g.replace cfg p x) := by
  unfold Game.replace
  split
  · exact h.disconnectClient p _
  · dsimp only
    refine Queued.buffer ?_ ?_ _ fun s => .inl rfl
    · split
      · exact h.connect hfree x
      · rename_i c hclient
        obtain ⟨hkick, hstill⟩ := h.kick hfree c x
        exact hkick.schedule hstill x
    · split
      · exact (connect_released p x p).trans hp
      · rename_i c hclient
        have hkick := @session_field (g.close c) p (fun s => { s with eventConnect := true }) _
          Session.released rfl p
        exact hkick.trans ((close_released c p).trans hp)

theorem Queued.pop {task : Task} {tasks : List Task} (h : Queued g)
    (htasks : g.tasks = task :: tasks) (htask : ∀ p, task ≠ .release p) :
    Queued { g with tasks } ∧ (∀ p, task.joins p = true → Free { g with tasks } p) ∧
      ∀ p name, task = .login p name → (g.sessions p).released = false := by
  have hcount : ∀ p, g.pending p = ({ g with tasks } : Game).pending p + if task.joins p then 1 else 0 := by
    intro p
    unfold Game.pending
    rw [htasks, List.countP_cons]
    dsimp only
    omega
  refine ⟨⟨fun p => ?_, fun p => ?_, h.expired, ?_, fun p name hlogin => ?_, h.autosend⟩,
    fun p hp => ?_, fun p name hlogin => ?_⟩
  · have hjoined := h.joined p
    have := hcount p
    dsimp only
    omega
  · have hclosed := h.closed p
    rw [htasks, List.mem_cons, or_iff_right (htask p).symm] at hclosed
    exact hclosed
  · have hordered := h.ordered
    rw [htasks] at hordered
    exact (List.pairwise_cons.mp hordered).2
  · refine h.first p name ?_
    rw [htasks]
    exact List.mem_cons_of_mem task hlogin
  · have hjoined := h.joined p
    have hthis := hcount p
    rw [if_pos hp] at hthis
    cases hsome : (g.sessions p).player.isSome <;> cases hreceived : (g.sessions p).received <;>
      simp only [hsome, hreceived, if_true, if_false, Bool.false_eq_true] at hjoined
    all_goals try omega
    exact ⟨by omega, Option.not_isSome_iff_eq_none.mp (by rw [hsome]; exact Bool.false_ne_true),
      hreceived⟩
  · refine h.first p name ?_
    rw [htasks, hlogin]
    exact List.mem_cons_self

theorem Queued.release {tasks : List Task} (h : Queued g) (htasks : g.tasks = .release p :: tasks) :
    Queued ({ g with tasks }.release p) := by
  obtain ⟨s, hsessions, hstate⟩ : ∃ s : Session,
      ({ g with tasks }.release p).sessions = Function.update g.sessions p s ∧
      s.received = (g.sessions p).received ∧ s.closed = (g.sessions p).closed ∧
      s.expired = (g.sessions p).expired ∧ s.released = true ∧ s.autosend = false ∧
      (s.player.isSome = true → (g.sessions p).player.isSome = true) := by
    unfold Game.release
    split
    · exact ⟨_, rfl, rfl, rfl, rfl, rfl, rfl, id⟩
    · split
      · refine ⟨_, Function.update_idem .., ?_⟩
        rw [session_self]
        exact ⟨rfl, rfl, rfl, rfl, rfl, fun hsome => absurd hsome Bool.false_ne_true⟩
      · exact ⟨_, rfl, rfl, rfl, rfl, rfl, rfl, id⟩
  have hrest : ({ g with tasks }.release p).tasks = tasks ∧
      ({ g with tasks }.release p).scheduled = g.scheduled := by
    unfold Game.release
    split
    · exact ⟨rfl, rfl⟩
    · split <;> exact ⟨rfl, rfl⟩
  obtain ⟨hreceived, hclosed, hexpired, hreleased, hautosend, hplayer⟩ := hstate
  have hother : ∀ q, q ≠ p → ({ g with tasks }.release p).sessions q = g.sessions q := fun q hq => by
    rw [hsessions, Function.update_of_ne hq]
  have hself : ({ g with tasks }.release p).sessions p = s := by
    rw [hsessions, Function.update_self]
  have hordered := h.ordered
  rw [htasks] at hordered
  obtain ⟨hfirst, hordered⟩ := List.pairwise_cons.mp hordered
  refine ⟨fun q => ?_, fun q => ?_, fun q => ?_, ?_, fun q name hlogin => ?_, fun q hq => ?_⟩
  · have hjoined := h.joined q
    have hpending : ({ g with tasks }.release p).pending q = g.pending q := by
      unfold Game.pending
      rw [hrest.1, hrest.2, htasks, List.countP_cons_of_neg]
      exact Bool.false_ne_true
    rw [hpending]
    by_cases hq : q = p
    · rw [hq, hself, hreceived]
      rw [hq] at hjoined
      refine le_trans ?_ hjoined
      split
      · rename_i hsome
        rw [hplayer hsome]
        exact le_rfl
      · omega
    · rw [hother q hq]
      exact hjoined
  · by_cases hq : q = p
    · rw [hq, hself, hclosed, hreleased]
      refine ⟨fun _ => .inr rfl, fun _ => (h.closed p).mpr (.inl ?_)⟩
      rw [htasks]
      exact List.mem_cons_self
    · have hmem : Task.release q ∈ g.tasks ↔ Task.release q ∈ tasks := by
        rw [htasks, List.mem_cons]
        exact or_iff_right fun heq => hq (Task.release.inj heq)
      rw [hother q hq, hrest.1, ← hmem]
      exact h.closed q
  · by_cases hq : q = p
    · rw [hq, hself, hclosed, hexpired]
      exact h.expired p
    · rw [hother q hq]
      exact h.expired q
  · rw [hrest.1]
    exact hordered
  · rw [hrest.1] at hlogin
    have hq : q ≠ p := fun heq => hfirst _ hlogin ⟨p, name, rfl, by rw [heq]⟩
    rw [hother q hq]
    refine h.first q name ?_
    rw [htasks]
    exact List.mem_cons_of_mem _ hlogin
  · by_cases hqp : q = p
    · rw [hqp, hself, hautosend]
    · rw [hother q hqp] at hq ⊢
      exact h.autosend q hq

theorem Queued.perform {task : Task} {tasks : List Task} (h : Queued g) (htasks : g.tasks = task :: tasks)
    (answers : Answers) : Queued ({ g with tasks }.perform cfg formatDateShort answers task) := by
  cases task with
  | login p name =>
    obtain ⟨hpop, hfree, hreleased⟩ := h.pop htasks fun p heq => by cases heq
    have hfree := hfree p (by simp [Task.joins])
    have hreleased := hreleased p name rfl
    change Queued ({ g with tasks }.login cfg formatDateShort p name answers)
    unfold Game.login
    split
    · exact hpop.enter cfg formatDateShort hfree hreleased name answers
    · rename_i x hfound
      exact hpop.replace cfg hfree hreleased x
  | connect p x =>
    obtain ⟨hpop, hfree, -⟩ := h.pop htasks fun p heq => by cases heq
    exact hpop.connect (hfree p (by simp [Task.joins])) x
  | release p => exact h.release htasks

theorem Queued.receive (h : Queued g) (hreceived : (g.sessions p).received = false)
    (hclosed : (g.sessions p).closed = false) (name : String) :
    Queued { g.session p fun s => { s with received := true } with tasks := g.tasks ++ [.login p name] } := by
  have hsession : ∀ {β : Type} (field : Session → β),
      (∀ s : Session, field { s with received := true } = field s) → ∀ q,
      field ((g.session p fun s => { s with received := true }).sessions q) =
        field (g.sessions q) := fun field hfield => session_field field (hfield _)
  have hopen : .release p ∉ g.tasks ∧ (g.sessions p).released = false := by
    refine ⟨fun hmem => ?_, Bool.eq_false_iff.mpr fun hreleased => ?_⟩
    · rw [(h.closed p).mpr (.inl hmem)] at hclosed
      cases hclosed
    · rw [(h.closed p).mpr (.inr hreleased)] at hclosed
      cases hclosed
  refine ⟨fun q => ?_, fun q => ?_, fun q => ?_, ?_, fun q other hlogin => ?_, fun q => ?_⟩
  · have hjoined := h.joined q
    dsimp only [Game.pending] at hjoined ⊢
    rw [hsession Session.player fun _ => rfl, List.countP_append, List.countP_singleton]
    by_cases hq : q = p
    · rw [hq, session_self]
      rw [hq, hreceived] at hjoined
      have hjoins : Task.joins p (.login p name) = true := by simp [Task.joins]
      rw [hjoins, if_pos rfl]
      rw [if_neg Bool.false_ne_true] at hjoined
      change List.countP _ g.tasks + 1 + List.countP _ g.scheduled + _ ≤ 1
      omega
    · rw [session_of_ne hq]
      have hjoins : Task.joins q (.login p name) = false := by
        simp [Task.joins, Ne.symm hq]
      rw [hjoins, if_neg Bool.false_ne_true]
      exact hjoined
  · dsimp only
    rw [hsession Session.closed fun _ => rfl, hsession Session.released fun _ => rfl,
      List.mem_append, List.mem_singleton]
    refine (h.closed q).trans (or_congr_left ?_)
    refine ⟨.inl, fun hmem => hmem.resolve_right fun heq => ?_⟩
    cases heq
  · dsimp only
    rw [hsession Session.closed fun _ => rfl, hsession Session.expired fun _ => rfl]
    exact h.expired q
  · refine ordered_append h.ordered fun a ha houtlives => ?_
    obtain ⟨q, other, rfl, heq⟩ := houtlives
    cases heq
    exact hopen.1 ha
  · dsimp only at hlogin ⊢
    rw [hsession Session.released fun _ => rfl]
    obtain hold | hnew := List.mem_append.mp hlogin
    · exact h.first q other hold
    · cases List.mem_singleton.mp hnew
      exact hopen.2
  · dsimp only
    rw [hsession Session.autosend fun _ => rfl, hsession Session.released fun _ => rfl]
    exact h.autosend q

theorem Queued.expire (h : Queued g) (hclosed : (g.sessions p).closed = true) :
    Queued (g.session p fun s => { s with expired := true }) := by
  have hsession : ∀ {β : Type} (field : Session → β),
      (∀ s : Session, field { s with expired := true } = field s) → ∀ q,
      field ((g.session p fun s => { s with expired := true }).sessions q) =
        field (g.sessions q) := fun field hfield => session_field field (hfield _)
  refine ⟨fun q => ?_, fun q => ?_, fun q hq => ?_, h.ordered, fun q name => ?_, fun q => ?_⟩
  · rw [hsession Session.player fun _ => rfl, hsession Session.received fun _ => rfl]
    exact h.joined q
  · rw [hsession Session.closed fun _ => rfl, hsession Session.released fun _ => rfl]
    exact h.closed q
  · rw [hsession Session.closed fun _ => rfl]
    by_cases hqp : q = p
    · rw [hqp, hclosed]
    · rw [session_of_ne hqp] at hq
      exact h.expired q hq
  · rw [hsession Session.released fun _ => rfl]
    exact h.first q name
  · rw [hsession Session.autosend fun _ => rfl, hsession Session.released fun _ => rfl]
    exact h.autosend q

theorem Queued.removePlayer (h : Queued g) (x : ℕ) : Queued (g.removePlayer x) := by
  unfold Game.removePlayer
  split
  · exact ⟨h.joined, h.closed, h.expired, h.ordered, h.first, h.autosend⟩
  · exact h

theorem Queued.timer (h : Queued g) (hscheduled : (p, x) ∈ g.scheduled) :
    Queued { g with scheduled := g.scheduled.erase (p, x), tasks := .connect p x :: g.tasks } := by
  refine ⟨fun q => ?_, fun q => ?_, h.expired, ?_, fun q name hlogin => ?_, h.autosend⟩
  · have hjoined := h.joined q
    have hcount := (List.perm_cons_erase hscheduled).countP_eq fun e : ℕ × ℕ => decide (e.1 = q)
    rw [List.countP_cons] at hcount
    unfold Game.pending at hjoined ⊢
    have hjoins : Task.joins q (.connect p x) = decide (p = q) := rfl
    dsimp only at hcount ⊢
    rw [List.countP_cons, hjoins]
    omega
  · dsimp only
    rw [List.mem_cons]
    refine (h.closed q).trans (or_congr_left ?_)
    refine ⟨.inr, fun hmem => hmem.resolve_left fun heq => ?_⟩
    cases heq
  · refine List.pairwise_cons.mpr ⟨fun a _ houtlives => ?_, h.ordered⟩
    obtain ⟨q, name, heq, -⟩ := houtlives
    cases heq
  · refine h.first q name ((List.mem_cons.mp hlogin).resolve_left fun heq => ?_)
    cases heq

end Queued

end ForgottenServer.Login.Sessions
