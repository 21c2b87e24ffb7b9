import ForgottenServer.Maps.Index

/-! # The caches of spectators

A cache answers as the map does when it holds, for each position, the creatures
of a scan of the map as it is. Every creature that comes or goes clears the cache of
creatures, and every player that of players. The only way to a wrong entry is a
call that fills a cache and was given creatures: they become part of the entry. -/
namespace ForgottenServer.Maps
open ForgottenServer.Lib.Quadtree ForgottenServer.Lib.Run ForgottenServer.Tiles

variable {rules : Rules} {isPlayer : ℕ → Bool} {m m' : Map} {c : ℕ} {p : Position} {v : Map.View}

/-! ## Scans -/

def Map.View.creatures (v : Map.View) : Leaf → List ℕ := if v.onlyPlayers then Leaf.playerList else Leaf.creatureList

section Scans

/-- What a scan takes from two leaves is related, and it goes on from them in the same way. -/
def LeafRel (R : List ℕ → List ℕ → Prop) (list list' : Leaf → List ℕ) (sees sees' : ℕ → Bool) (leaf leaf' : Leaf) :
    Prop :=
  R ((list leaf).filter sees) ((list' leaf').filter sees') ∧ leaf.leafE = leaf'.leafE ∧ leaf.leafS = leaf'.leafS

variable {R : List ℕ → List ℕ → Prop} {list list' : Leaf → List ℕ} {sees sees' : ℕ → Bool}

theorem leafAt_rel {S : Leaf → Leaf → Prop} (hleaf : ∀ way, Option.Rel S (m.root.get way) (m'.root.get way))
    (x y : ℕ) : m.leafAt x y = m'.leafAt x y := by
  unfold Map.leafAt
  have hway := hleaf (path 15 13 x y)
  generalize m.root.get (path 15 13 x y) = o at hway ⊢
  generalize m'.root.get (path 15 13 x y) = o' at hway ⊢
  cases hway <;> rfl

theorem scanRow_rel (hnil : R [] []) (happend : ∀ a a' b b', R a a' → R b b' → R (a ++ b) (a' ++ b'))
    (hleaf : ∀ way, Option.Rel (LeafRel R list list' sees sees') (m.root.get way) (m'.root.get way)) (ny n nx : ℕ)
    (way : Option (List Quadrant)) : R (m.scanRow list sees ny n nx way) (m'.scanRow list' sees' ny n nx way) := by
  induction n generalizing nx way with
  | zero => exact hnil
  | succ n ih =>
    cases way with
    | none =>
      rw [Map.scanRow, Map.scanRow, leafAt_rel hleaf]
      exact ih _ _
    | some way =>
      rw [Map.scanRow, Map.scanRow]
      have hway := hleaf way
      generalize m.root.get way = o at hway ⊢
      generalize m'.root.get way = o' at hway ⊢
      cases hway with
      | none => exact hnil
      | some h => exact happend _ _ _ _ h.1 (h.2.1 ▸ ih _ _)

theorem scanRows_rel (hnil : R [] []) (happend : ∀ a a' b b', R a a' → R b b' → R (a ++ b) (a' ++ b'))
    (hleaf : ∀ way, Option.Rel (LeafRel R list list' sees sees') (m.root.get way) (m'.root.get way))
    (columns startx n ny : ℕ) (way : Option (List Quadrant)) :
    R (m.scanRows list sees columns startx n ny way) (m'.scanRows list' sees' columns startx n ny way) := by
  induction n generalizing ny way with
  | zero => exact hnil
  | succ n ih =>
    cases way with
    | none =>
      rw [Map.scanRows, Map.scanRows, leafAt_rel hleaf]
      exact happend _ _ _ _ (scanRow_rel hnil happend hleaf ..) (ih _ _)
    | some way =>
      have hsouth : (m.root.get way).bind (·.leafS) = (m'.root.get way).bind (·.leafS) := by
        have hway := hleaf way
        generalize m.root.get way = o at hway ⊢
        generalize m'.root.get way = o' at hway ⊢
        cases hway with
        | none => rfl
        | some h => exact h.2.2
      rw [Map.scanRows, Map.scanRows, hsouth]
      exact happend _ _ _ _ (scanRow_rel hnil happend hleaf ..) (ih _ _)

theorem scan_rel {v v' : Map.View} (hnil : R [] []) (happend : ∀ a a' b b', R a a' → R b b' → R (a ++ b) (a' ++ b'))
    (hcenter : v'.centerPos = v.centerPos) (hfloors : v'.multifloor = v.multifloor)
    (hranges : Map.ranges v' = Map.ranges v)
    (hleaf : ∀ way, Option.Rel (LeafRel R v.creatures v'.creatures (m.sees v) (m'.sees v'))
      (m.root.get way) (m'.root.get way)) :
    R (m.scan v) (m'.scan v') := by
  unfold Map.scan Map.getSpectatorsInternal
  rw [hcenter, hfloors, hranges]
  split
  · exact hnil
  · dsimp only
    rw [leafAt_rel hleaf]
    exact scanRows_rel hnil happend hleaf ..

theorem sees_congr {v v' : Map.View} (hcenter : v'.centerPos = v.centerPos) (hfloors : v'.multifloor = v.multifloor)
    (hranges : Map.ranges v' = Map.ranges v) (htile : m'.tile c = m.tile c) : m'.sees v' c = m.sees v c := by
  unfold Map.sees
  rw [hcenter, hfloors, hranges, htile]

theorem rel_of_map_eq {β : Type} {g : Leaf → β} {S : Leaf → Leaf → Prop} {o o' : Option Leaf}
    (hmap : o'.map g = o.map g)
    (h : ∀ leaf leaf', o = some leaf → g leaf' = g leaf → S leaf leaf') : Option.Rel S o o' := by
  cases o with
  | none =>
    rw [Option.map_eq_none_iff.mp hmap]
    exact .none
  | some leaf =>
    obtain ⟨leaf', rfl, hview⟩ := Option.map_eq_some_iff.mp hmap
    exact .some (h leaf leaf' rfl hview)

theorem Indexed.players_perm {way : List Quadrant} {leaf : Leaf} (h : Indexed rules m)
    (hleaf : m.root.get way = some leaf) : leaf.playerList.Perm (leaf.creatureList.filter rules.isPlayer) := by
  obtain ⟨hlength, hget⟩ := QTree.get_take hleaf
  obtain ⟨hcreatures, hplayers⟩ := h.leaves _ hlength (leaf.creatureList, leaf.playerList)
    (by rw [Map.creaturesIn, hget, Option.map_some])
  rw [List.perm_ext_iff_of_nodup hplayers.1 (hcreatures.1.filter _)]
  intro d
  rw [hplayers.2, List.mem_filter, hcreatures.2, and_comm]

theorem Indexed.scan_players (h : Indexed rules m) (v : Map.View) :
    (m.scan { v with onlyPlayers := true }).Perm ((m.scan { v with onlyPlayers := false }).filter rules.isPlayer) := by
  refine scan_rel (R := fun l l' => l.Perm (l'.filter rules.isPlayer)) (List.Perm.refl _) ?_ rfl rfl rfl fun way => ?_
  · intro a a' b b' ha hb
    rw [List.filter_append]
    exact ha.append hb
  · refine rel_of_map_eq (g := id) rfl fun leaf leaf' hleaf hsame => ?_
    obtain rfl : leaf' = leaf := hsame
    refine ⟨?_, rfl, rfl⟩
    show (leaf'.playerList.filter _).Perm ((leaf'.creatureList.filter _).filter _)
    rw [List.filter_comm]
    exact (h.players_perm hleaf).filter _

end Scans

/-! ## Players who stay -/

/-- What a scan for players reads of a leaf. -/
def playersView (leaf : Leaf) : List ℕ × Option (List Quadrant) × Option (List Quadrant) :=
  (leaf.playerList, leaf.leafE, leaf.leafS)

/-- No player has come, gone or moved. -/
structure SamePlayers (rules : Rules) (m m' : Map) : Prop where
  leaves : ∀ way, (m'.root.get way).map playersView = (m.root.get way).map playersView
  tile : ∀ c, rules.isPlayer c = true → m'.tile c = m.tile c

section Players

theorem SamePlayers.trans {m'' : Map} (h : SamePlayers rules m m') (h' : SamePlayers rules m' m'') :
    SamePlayers rules m m'' :=
  ⟨fun way => (h'.leaves way).trans (h.leaves way), fun c hc => (h'.tile c hc).trans (h.tile c hc)⟩

theorem samePlayers_modifyLeaf (m : Map) (way : List Quadrant) {f : Leaf → Leaf}
    (hf : ∀ leaf, playersView (f leaf) = playersView leaf) : SamePlayers rules m (m.modifyLeaf way f) :=
  ⟨QTree.map_get_modify hf m.root way, fun _ _ => rfl⟩

theorem samePlayers_modifyTile (m : Map) (p : Position) (f : Tile → Tile) : SamePlayers rules m (m.modifyTile p f) :=
  samePlayers_modifyLeaf m p.path fun _ => rfl

theorem SamePlayers.scan (hsame : SamePlayers rules m m') (h : Indexed rules m) (hv : v.onlyPlayers = true) :
    m'.scan v = m.scan v := by
  refine (scan_rel (R := Eq) rfl ?_ rfl rfl rfl fun way => rel_of_map_eq (hsame.leaves way) ?_).symm
  · rintro a _ b _ rfl rfl
    rfl
  · intro leaf leaf' hleaf hview
    obtain ⟨hplayers, heast, hsouth⟩ : leaf'.playerList = leaf.playerList ∧ leaf'.leafE = leaf.leafE ∧
        leaf'.leafS = leaf.leafS := by simpa [playersView] using hview
    refine ⟨?_, heast.symm, hsouth.symm⟩
    rw [Map.View.creatures, if_pos hv, hplayers]
    refine List.filter_congr fun d hd => (sees_congr rfl rfl rfl (hsame.tile d ?_)).symm
    exact (List.mem_filter.mp ((h.players_perm hleaf).mem_iff.mp hd)).2

end Players

/-! ## Caches -/

/-- The whole viewport on all floors. -/
def wholeView (p : Position) (onlyPlayers : Bool) : Map.View := { centerPos := p, multifloor := true, onlyPlayers }

/-- The caches hold what a scan of the map would give. -/
structure Coherent (m : Map) : Prop where
  all : ∀ p l, m.spectatorCache p = some l → l.Perm (m.scan (wholeView p false))
  players : ∀ p l, m.playersSpectatorCache p = some l → l.Perm (m.scan (wholeView p true))

/-- Nothing is cached beyond the layers of the map. -/
structure Layered (m : Map) : Prop where
  all : ∀ p l, m.spectatorCache p = some l → p.z.toNat < Map.maxLayers
  players : ∀ p l, m.playersSpectatorCache p = some l → p.z.toNat < Map.maxLayers

/-- A call with this view ends in a scan that is cached. -/
def fillsCache (m : Map) (v : Map.View) : Bool :=
  v.centerPos.z.toNat < Map.maxLayers && Map.isCached v && (m.spectatorCache v.centerPos).isNone &&
    (!v.onlyPlayers || (m.playersSpectatorCache v.centerPos).isNone)

/-- Whatever is asked for, what is added are the creatures of a scan. -/
def Answers (isPlayer : ℕ → Bool) (m : Map) : Prop :=
  ∀ spectators v, ∃ added, (m.getSpectators isPlayer spectators v).1 = spectators ++ added ∧ added.Perm (m.scan v)

section Caches

theorem isCached_wholeView (p : Position) (onlyPlayers : Bool) : Map.isCached (wholeView p onlyPlayers) = true := rfl

theorem scan_of_caches (hroot : m'.root = m.root) (htile : m'.tile = m.tile) (v : Map.View) :
    m'.scan v = m.scan v := by
  have hsees : ∀ d, m'.sees v d = m.sees v d := fun d => sees_congr rfl rfl rfl (congrFun htile d)
  refine scan_rel (R := Eq) rfl ?_ rfl rfl rfl fun way => rel_of_map_eq (g := id) (by rw [hroot]) ?_
  · rintro a _ b _ rfl rfl
    rfl
  · intro leaf leaf' _ hview
    obtain rfl : leaf' = leaf := hview
    exact ⟨List.filter_congr fun d _ => hsees d, rfl, rfl⟩

theorem scan_of_isCached (hcached : Map.isCached v = true) :
    m.scan v = m.scan (wholeView v.centerPos v.onlyPlayers) := by
  have hsplit : Map.ranges v = Map.ranges (wholeView v.centerPos v.onlyPlayers) ∧ v.multifloor = true := by
    have hwhole : Map.ranges (wholeView v.centerPos v.onlyPlayers) =
        ((-Map.maxViewport, Map.maxViewport), -Map.maxViewport, Map.maxViewport) := rfl
    rw [hwhole]
    simpa [Map.isCached] using hcached
  have hsees : ∀ d, m.sees (wholeView v.centerPos v.onlyPlayers) d = m.sees v d :=
    fun d => sees_congr rfl hsplit.2.symm hsplit.1.symm rfl
  refine (scan_rel (R := Eq) rfl ?_ rfl hsplit.2.symm hsplit.1.symm fun way => rel_of_map_eq (g := id) rfl ?_)
  · rintro a _ b _ rfl rfl
    rfl
  · intro leaf leaf' _ hview
    obtain rfl : leaf' = leaf := hview
    exact ⟨List.filter_congr fun d _ => (hsees d).symm, rfl, rfl⟩

theorem getSpectatorsInternal_eq (h : v.centerPos.z.toNat < Map.maxLayers) : m.getSpectatorsInternal v = m.scan v := by
  rw [Map.scan, if_neg (by omega)]

theorem getSpectators_of_fillsCache {spectators : List ℕ} (h : fillsCache m v = true) :
    m.getSpectators isPlayer spectators v = (spectators ++ m.scan v,
      if v.onlyPlayers then
        { m with playersSpectatorCache :=
            Function.update m.playersSpectatorCache v.centerPos (some (spectators ++ m.scan v)) }
      else { m with
        spectatorCache := Function.update m.spectatorCache v.centerPos (some (spectators ++ m.scan v)) }) := by
  obtain ⟨⟨⟨hlayer, hcached⟩, hnone⟩, hplayers⟩ : ((v.centerPos.z.toNat < Map.maxLayers ∧ Map.isCached v = true) ∧
      m.spectatorCache v.centerPos = none) ∧ (v.onlyPlayers = false ∨ m.playersSpectatorCache v.centerPos = none) := by
    simpa [fillsCache] using h
  have hmiss : (if v.onlyPlayers then m.playersSpectatorCache v.centerPos else none) = none := by
    rcases hplayers with hplayers | hplayers <;> simp [hplayers]
  rw [Map.getSpectators, if_neg (by omega), if_pos hcached, hmiss, hnone,
    getSpectatorsInternal_eq hlayer]

theorem getSpectators_of_not_fillsCache {spectators : List ℕ} (h : fillsCache m v = false) :
    (m.getSpectators isPlayer spectators v).2 = m := by
  unfold Map.getSpectators
  split
  · rfl
  · rename_i hlayer
    split
    · rename_i hcached
      split
      · rfl
      · rename_i hmiss
        split
        · rfl
        · rename_i hnone
          exfalso
          have hplayers : v.onlyPlayers = true → m.playersSpectatorCache v.centerPos = none := by
            intro hv
            rwa [if_pos hv] at hmiss
          simp [fillsCache, hcached, hnone, Nat.lt_of_not_le hlayer] at h
          rw [hplayers h.1] at h
          exact absurd h.2 (by simp)
    · rfl

theorem Layered.getSpectators (h : Layered m) (isPlayer : ℕ → Bool) (spectators : List ℕ) (v : Map.View) :
    Layered (m.getSpectators isPlayer spectators v).2 := by
  cases hfills : fillsCache m v with
  | false => rwa [getSpectators_of_not_fillsCache hfills]
  | true =>
    have hlayer : v.centerPos.z.toNat < Map.maxLayers := by
      simp only [fillsCache, Bool.and_eq_true, decide_eq_true_eq] at hfills
      exact hfills.1.1.1
    rw [getSpectators_of_fillsCache hfills]
    dsimp only
    split
    · refine ⟨h.all, fun p l hl => ?_⟩
      rcases (update_eq_some p).mp hl with ⟨rfl, -⟩ | ⟨-, hl⟩
      · exact hlayer
      · exact h.players p l hl
    · refine ⟨fun p l hl => ?_, h.players⟩
      rcases (update_eq_some p).mp hl with ⟨rfl, -⟩ | ⟨-, hl⟩
      · exact hlayer
      · exact h.all p l hl

/-- With such caches every call answers as a scan, and only with such. -/
theorem answers_iff_coherent (h : Indexed rules m) (hlayered : Layered m) : Answers rules.isPlayer m ↔ Coherent m := by
  constructor
  · intro hanswers
    refine ⟨fun p l hl => ?_, fun p l hl => ?_⟩
    · obtain ⟨added, hcall, hadded⟩ := hanswers [] (wholeView p false)
      rw [Map.getSpectators, if_neg (by have hlayer := hlayered.all p l hl; exact Nat.not_le.mpr hlayer),
        if_pos (isCached_wholeView p false)] at hcall
      simp only [wholeView, hl, Bool.false_eq_true, if_false, List.nil_append] at hcall
      rwa [hcall]
    · obtain ⟨added, hcall, hadded⟩ := hanswers [] (wholeView p true)
      rw [Map.getSpectators, if_neg (by have hlayer := hlayered.players p l hl; exact Nat.not_le.mpr hlayer),
        if_pos (isCached_wholeView p true)] at hcall
      simp only [wholeView, hl, if_true, List.nil_append] at hcall
      rwa [hcall]
  · intro hcoherent spectators v
    unfold Map.getSpectators
    split
    · rename_i hlayer
      exact ⟨[], (List.append_nil _).symm, by rw [Map.scan, if_pos hlayer]⟩
    · rename_i hlayer
      have hscan : m.getSpectatorsInternal v = m.scan v :=
        getSpectatorsInternal_eq (Nat.lt_of_not_le hlayer)
      split
      · rename_i hcached
        rw [scan_of_isCached hcached]
        split
        · rename_i cached hhit
          cases hv : v.onlyPlayers with
          | false => rw [hv] at hhit; cases hhit
          | true =>
            rw [hv, if_pos rfl] at hhit
            exact ⟨cached, rfl, hcoherent.players _ _ hhit⟩
        · split
          · rename_i cached hhit
            have hall := hcoherent.all _ _ hhit
            refine ⟨_, rfl, ?_⟩
            cases hv : v.onlyPlayers with
            | false => exact hall
            | true =>
              -- the players of the other cache
              exact (hall.filter _).trans (h.scan_players (wholeView v.centerPos false)).symm
          · exact ⟨_, rfl, by rw [hscan, scan_of_isCached hcached]⟩
      · exact ⟨_, rfl, by rw [hscan]⟩

theorem Coherent.update_all_iff (h : Coherent m) (p : Position) (l : List ℕ) :
    Coherent { m with spectatorCache := Function.update m.spectatorCache p (some l) } ↔
      l.Perm (m.scan (wholeView p false)) := by
  have hscan := fun v => @scan_of_caches m
    { m with spectatorCache := Function.update m.spectatorCache p (some l) } rfl rfl v
  constructor
  · intro hafter
    rw [← hscan]
    exact hafter.all p l (Function.update_self ..)
  · intro hl
    refine ⟨fun q l' hq => ?_, fun q l' hq => ?_⟩
    · rw [hscan]
      rcases (update_eq_some q).mp hq with ⟨rfl, hentry⟩ | ⟨-, hq⟩
      · rwa [← Option.some.inj hentry]
      · exact h.all q l' hq
    · rw [hscan]
      exact h.players q l' hq

theorem Coherent.update_players_iff (h : Coherent m) (p : Position) (l : List ℕ) :
    Coherent { m with playersSpectatorCache := Function.update m.playersSpectatorCache p (some l) } ↔
      l.Perm (m.scan (wholeView p true)) := by
  have hscan := fun v => @scan_of_caches m
    { m with playersSpectatorCache := Function.update m.playersSpectatorCache p (some l) } rfl rfl v
  constructor
  · intro hafter
    rw [← hscan]
    exact hafter.players p l (Function.update_self ..)
  · intro hl
    refine ⟨fun q l' hq => ?_, fun q l' hq => ?_⟩
    · rw [hscan]
      exact h.all q l' hq
    · rw [hscan]
      rcases (update_eq_some q).mp hq with ⟨rfl, hentry⟩ | ⟨-, hq⟩
      · rwa [← Option.some.inj hentry]
      · exact h.players q l' hq

theorem append_perm_self_iff (l l' : List ℕ) : (l ++ l').Perm l' ↔ l = [] := by
  constructor
  · intro hperm
    have hlength := hperm.length_eq
    rw [List.length_append] at hlength
    exact List.length_eq_zero_iff.mp (by omega)
  · rintro rfl
    rfl

theorem coherent_getSpectators_iff (h : Coherent m) (isPlayer : ℕ → Bool) (spectators : List ℕ) (v : Map.View) :
    Coherent (m.getSpectators isPlayer spectators v).2 ↔ (fillsCache m v = true → spectators = []) := by
  cases hfills : fillsCache m v with
  | false =>
    rw [getSpectators_of_not_fillsCache hfills]
    exact iff_of_true h fun hf => by cases hf
  | true =>
    have hcached : Map.isCached v = true := by
      simp only [fillsCache, Bool.and_eq_true] at hfills
      exact hfills.1.1.2
    have hgiven : ∀ l : List ℕ, (spectators ++ l).Perm l ↔ (true = true → spectators = []) := fun l =>
      (append_perm_self_iff spectators l).trans ⟨fun h _ => h, fun h => h rfl⟩
    rw [getSpectators_of_fillsCache hfills, scan_of_isCached hcached]
    cases v.onlyPlayers with
    | true => exact (h.update_players_iff v.centerPos _).trans (hgiven _)
    | false => exact (h.update_all_iff v.centerPos _).trans (hgiven _)

end Caches

/-! ## Steps -/

section Steps

theorem Coherent.after (h : Coherent m) (hindexed : Indexed rules m) (hall : m'.spectatorCache = fun _ => none)
    (hplayers : m'.playersSpectatorCache = if rules.isPlayer c then fun _ => none else m.playersSpectatorCache)
    (hsame : rules.isPlayer c = false → SamePlayers rules m m') : Coherent m' := by
  refine ⟨fun p l hl => ?_, fun p l hl => ?_⟩
  · rw [hall] at hl
    cases hl
  · rw [hplayers] at hl
    cases hc : rules.isPlayer c with
    | true => rw [hc] at hl; cases hl
    | false =>
      rw [hc] at hl
      rw [(hsame hc).scan hindexed rfl]
      exact h.players p l hl

theorem Layered.after (h : Layered m) (hall : m'.spectatorCache = fun _ => none)
    (hplayers : m'.playersSpectatorCache = if rules.isPlayer c then fun _ => none else m.playersSpectatorCache) :
    Layered m' := by
  refine ⟨fun p l hl => ?_, fun p l hl => ?_⟩
  · rw [hall] at hl
    cases hl
  · rw [hplayers] at hl
    split at hl
    · cases hl
    · exact h.players p l hl

theorem samePlayers_addCreature (hc : rules.isPlayer c = false) (m : Map) (way : List Quadrant) :
    SamePlayers rules m (m.modifyLeaf way (·.addCreature rules.isPlayer c)) :=
  samePlayers_modifyLeaf m way fun leaf => by rw [playersView, Leaf.addCreature, hc]; rfl

theorem samePlayers_removeCreature (hc : rules.isPlayer c = false) (m : Map) (way : List Quadrant) :
    SamePlayers rules m (m.modifyLeaf way (·.removeCreature rules.isPlayer c)) :=
  samePlayers_modifyLeaf m way fun leaf => by rw [playersView, Leaf.removeCreature, hc]; rfl

theorem samePlayers_addThing (hc : rules.isPlayer c = false) (m : Map) (p : Position) :
    SamePlayers rules m (m.addThing rules p c) := by
  have hlist : SamePlayers rules m (m.modifyTile p fun t => { t with creatures := c :: t.creatures }) :=
    samePlayers_modifyTile m p _
  refine ⟨hlist.leaves, fun d hd => Function.update_of_ne ?_ _ _⟩
  rintro rfl
  rw [hc] at hd
  cases hd

theorem samePlayers_removeThing (m : Map) (p : Position) (c : ℕ) : SamePlayers rules m (m.removeThing rules p c) := by
  unfold Map.removeThing
  split
  · have hlist : SamePlayers rules m (m.modifyTile p (·.removeCreature c)) :=
      samePlayers_modifyTile m p _
    exact ⟨hlist.leaves, hlist.tile⟩
  · exact ⟨fun _ => rfl, fun _ _ => rfl⟩

theorem playersCache_removeThing (hc : rules.isPlayer c = false) (m : Map) (p : Position) :
    (m.removeThing rules p c).playersSpectatorCache = m.playersSpectatorCache := by
  unfold Map.removeThing
  split
  · show (if rules.isPlayer c then fun _ => none else m.playersSpectatorCache) = _
    rw [hc, if_neg Bool.false_ne_true]
  · rfl

theorem playersCache_move (m : Map) (old p : Position) : ((if old.path ≠ p.path then
      ((m.removeThing rules old c).modifyLeaf old.path (·.removeCreature rules.isPlayer c)).modifyLeaf p.path
        (·.addCreature rules.isPlayer c)
      else m.removeThing rules old c).addThing rules p c).playersSpectatorCache =
        if rules.isPlayer c then fun _ => none else m.playersSpectatorCache := by
  show (if rules.isPlayer c then fun _ => none else _) = _
  cases hc : rules.isPlayer c with
  | true => rfl
  | false =>
    rw [if_neg Bool.false_ne_true, if_neg Bool.false_ne_true, ← playersCache_removeThing hc m old]
    split <;> rfl

theorem samePlayers_move (hc : rules.isPlayer c = false) (m : Map) (old p : Position) :
    SamePlayers rules m ((if old.path ≠ p.path then
      ((m.removeThing rules old c).modifyLeaf old.path (·.removeCreature rules.isPlayer c)).modifyLeaf p.path
        (·.addCreature rules.isPlayer c)
      else m.removeThing rules old c).addThing rules p c) := by
  have hgone : SamePlayers rules m (m.removeThing rules old c) := samePlayers_removeThing m old c
  split
  · have hleft := hgone.trans (samePlayers_removeCreature hc _ old.path)
    exact (hleft.trans (samePlayers_addCreature hc _ p.path)).trans (samePlayers_addThing hc _ p)
  · exact hgone.trans (samePlayers_addThing hc _ p)

/-- What the steps of a run keep, however the calls of it are made. -/
structure Kept (rules : Rules) (m : Map) : Prop where
  indexed : Indexed rules m
  layered : Layered m

theorem Kept.getSpectators (h : Kept rules m) (spectators : List ℕ) (v : Map.View) :
    Kept rules (m.getSpectators rules.isPlayer spectators v).2 :=
  ⟨h.indexed.getSpectators rules.isPlayer spectators v, h.layered.getSpectators rules.isPlayer spectators v⟩

theorem Coherent.getSpectators_nil (h : Coherent m) (v : Map.View) : Coherent (m.getSpectators isPlayer [] v).2 :=
  (coherent_getSpectators_iff h isPlayer [] v).mpr fun _ => rfl

theorem caches_moveCreature (h : Kept rules m) (c : ℕ) (p : Position) :
    Layered (m.moveCreature rules c p) ∧ (Coherent m → Coherent (m.moveCreature rules c p)) := by
  unfold Map.moveCreature
  split
  · exact ⟨h.layered, id⟩
  · rename_i old _
    dsimp only
    have hcoherent : Coherent m → Coherent ((m.getSpectators rules.isPlayer []
        { centerPos := old, multifloor := true }).2.getSpectators rules.isPlayer []
          { centerPos := p, multifloor := true }).2 :=
            fun h => (h.getSpectators_nil _).getSpectators_nil _
    have hkept := (h.getSpectators [] { centerPos := old, multifloor := true }).getSpectators []
      { centerPos := p, multifloor := true }
    generalize ((m.getSpectators rules.isPlayer []
      { centerPos := old, multifloor := true }).2.getSpectators
      rules.isPlayer [] { centerPos := p, multifloor := true }).2 = seen at hcoherent hkept ⊢
    refine ⟨hkept.layered.after rfl (playersCache_move seen old p), fun h => ?_⟩
    exact (hcoherent h).after hkept.indexed rfl (playersCache_move seen old p) fun hc => samePlayers_move hc seen old p

theorem caches_removeFromTile {removed : ℕ → Bool} (h : Kept rules m)
    (hremoved : m.isRemoved c = false) (htile : m.tile c = some p) :
    Layered { m.removeFromTile rules p c with isRemoved := removed } ∧
      (Coherent m → Coherent { m.removeFromTile rules p c with isRemoved := removed }) := by
  have hold : m.position c = some p := (position_of_not_removed hremoved).trans htile
  have hbare : OnTiles (m.modifyLeaf p.path (·.removeCreature rules.isPlayer c)) m.position :=
    h.indexed.tiles.modifyLeaf p fun _ => rfl
  have hkept : SameTiles m (m.modifyLeaf p.path (·.removeCreature rules.isPlayer c)) :=
    sameTiles_modifyLeaf m p fun _ => rfl
  have hexists := (hkept p).trans (h.indexed.tile_exists c p hold)
  rw [Map.removeFromTile, removeThing_eq hbare hold hexists]
  refine ⟨h.layered.after rfl rfl, fun hcoherent => hcoherent.after h.indexed rfl rfl fun hc => ?_⟩
  have hgone := (samePlayers_removeCreature hc m p.path).trans (samePlayers_modifyTile _ p (·.removeCreature c))
  exact ⟨hgone.leaves, hgone.tile⟩

/-- A call that fills a cache is given no creatures. -/
def StartsEmpty (m : Map) : Action → Prop
  | .getSpectators spectators v => fillsCache m v = true → spectators = []
  | _ => True

instance (m : Map) : DecidablePred (StartsEmpty m)
  | .getSpectators spectators v => inferInstanceAs (Decidable (fillsCache m v = true → spectators = []))
  | .placeCreature .. | .moveCreature .. | .removeCreature _ => .isTrue trivial

/-- Only a call that is given creatures can make a cache wrong. -/
theorem caches_step (h : Kept rules m) (a : Action) :
    Layered (step rules m a) ∧ (Coherent m → (Coherent (step rules m a) ↔ StartsEmpty m a)) := by
  have halways : ∀ {m' : Map}, Layered m' ∧ (Coherent m → Coherent m') →
      Layered m' ∧ (Coherent m → (Coherent m' ↔ True)) :=
    fun h => ⟨h.1, fun hcoherent => iff_true_intro (h.2 hcoherent)⟩
  cases a with
  | placeCreature c pos extendedPos forced relList =>
    refine halways ?_
    unfold Maps.step
    dsimp only
    split
    · exact ⟨h.layered, id⟩
    · cases hplace : m.placeCreature rules pos c extendedPos forced relList with
      | none => exact ⟨h.layered, id⟩
      | some m' =>
        obtain ⟨found, -, hplace⟩ := Option.bind_eq_some_iff.mp hplace
        obtain ⟨dest, -, rfl⟩ := Option.map_eq_some_iff.mp hplace
        refine ⟨h.layered.after rfl rfl, fun hcoherent => hcoherent.after h.indexed rfl rfl fun hc => ?_⟩
        exact (samePlayers_addThing hc m dest).trans (samePlayers_addCreature hc _ dest.path)
  | moveCreature c newPos => exact halways (caches_moveCreature h c newPos)
  | removeCreature c =>
    refine halways ?_
    unfold Maps.step
    dsimp only
    split
    · exact ⟨h.layered, id⟩
    · rename_i hremoved
      split
      · exact ⟨h.layered, id⟩
      · rename_i p htile
        have hcoherent : Coherent m → Coherent (m.getSpectators rules.isPlayer []
          { centerPos := p, multifloor := true }).2 := fun h => h.getSpectators_nil _
        have hkept := h.getSpectators [] { centerPos := p, multifloor := true }
        obtain ⟨cache, players, hm⟩ := getSpectators_map rules.isPlayer m []
          { centerPos := p, multifloor := true }
        rw [hm] at hcoherent hkept ⊢
        obtain ⟨hlayered, hafter⟩ := caches_removeFromTile (p := p) hkept (by simpa using hremoved) htile
        exact ⟨hlayered, fun h => hafter (hcoherent h)⟩
  | getSpectators spectators v =>
    exact ⟨h.layered.getSpectators rules.isPlayer spectators v,
      fun hcoherent => coherent_getSpectators_iff hcoherent rules.isPlayer spectators v⟩

theorem Kept.step (h : Kept rules m) {a : Action} (hlegal : Legal rules m a) : Kept rules (step rules m a) :=
  ⟨h.indexed.step hlegal, (caches_step h a).1⟩

theorem Map.Bare.kept (h : m.Bare) (rules : Rules) : Kept rules m := by
  refine ⟨h.indexed rules, fun p l hl => ?_, fun p l hl => ?_⟩
  · rw [h.spectatorCache] at hl
    cases hl
  · rw [h.playersSpectatorCache] at hl
    cases hl

theorem Map.Bare.coherent (h : m.Bare) : Coherent m := by
  refine ⟨fun p l hl => ?_, fun p l hl => ?_⟩
  · rw [h.spectatorCache] at hl
    cases hl
  · rw [h.playersSpectatorCache] at hl
    cases hl

end Steps

/-! ## Runs -/

/-- Every call answers as a scan of the map in all states of a run exactly if each call of the
run that fills a cache is given an empty result set. -/
theorem spectators_as_scanned (rules : Rules) {start : Map} (hstart : start.Bare) {as : List Action}
    (hlegal : Along (step rules) (Legal rules) start as) :
    (∀ pre, pre <+: as → Answers rules.isPlayer (run (step rules) start pre)) ↔
      Along (step rules) StartsEmpty start as := by
  have hkept : ∀ m a, Kept rules m → Legal rules m a → Kept rules (step rules m a) :=
    fun _ _ h hok => h.step hok
  have hanswers : ∀ m a, Kept rules m → Answers rules.isPlayer m → Legal rules m a →
      (Answers rules.isPlayer (step rules m a) ↔ StartsEmpty m a) := by
    intro m a h hm hok
    have hnext := h.step hok
    rw [answers_iff_coherent hnext.indexed hnext.layered]
    exact (caches_step h a).2 ((answers_iff_coherent h.indexed h.layered).mp hm)
  have hfirst := (answers_iff_coherent (hstart.indexed rules) (hstart.kept rules).layered).mpr hstart.coherent
  exact inv_reached_iff_of_legal hkept hanswers (hstart.kept rules) hfirst hlegal

theorem spectators_as_scanned_street : Answers streetRules.isPlayer (run (step streetRules) street streetRun) :=
  (spectators_as_scanned streetRules bare_street (by decide +kernel)).mpr
    (by decide +kernel) streetRun
    (List.prefix_refl _)

/-- A call that is given the creature 9 leaves it in the cache for the next one. -/
theorem given_creature_is_cached :
    let m := run (step streetRules) street (streetRun ++ [.getSpectators [9] (wholeView ⟨7, 0, 7⟩ false)])
    Along (step streetRules) (Legal streetRules) street
      (streetRun ++ [.getSpectators [9] (wholeView ⟨7, 0, 7⟩ false)]) ∧
      (m.getSpectators streetRules.isPlayer [] (wholeView ⟨7, 0, 7⟩ false)).1 = [9, 1] ∧
      m.scan (wholeView ⟨7, 0, 7⟩ false) = [1] := by
  decide +kernel

end ForgottenServer.Maps
