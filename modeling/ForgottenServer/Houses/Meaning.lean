import ForgottenServer.Houses.AccessList

/-! # What an access list says

A line is read after trimming and without regard to case. Of the four forms it can have,
`parseList` reads the rank form in its own way: it cuts the guild's name one letter short
and looks for a rank spelled in small letters. -/
namespace ForgottenServer.Houses
open Lib Lib.Trimming

def isBlank (c : Char) : Bool := isSpace c || isTab c

/-- Everyone, a player or a whole guild. -/
inductive Names (p : Player) : Text → Prop
  | everyone : Names p ['*']
  | player (plain : ∀ c ∈ ['@', '!', '*', '?'], c ∉ toLowerCase p.name) : Names p (toLowerCase p.name)
  | guild (m : Membership) (hm : m ∈ p.membership) : Names p ('@' :: toLowerCase m.guild.name)

/-- A rank of a guild. -/
inductive NamesRank (p : Player) : Text → Prop
  | rank (m : Membership) (hm : m ∈ p.membership) (named : m.guild.name ≠ [])
      (plain : '@' ∉ toLowerCase m.guild.name) :
      NamesRank p (toLowerCase m.guild.name ++ '@' :: toLowerCase m.rank.name)

/-- What the code takes for a rank of a guild: any character may stand before the `@`. -/
inductive FindsRank (p : Player) : Text → Prop
  | rank (m : Membership) (hm : m ∈ p.membership) (c : Char) (plain : '@' ∉ toLowerCase m.guild.name ++ [c])
      (first : m.guild.getRankByName m.rank.name = some m.rank) :
      FindsRank p (toLowerCase m.guild.name ++ [c] ++ '@' :: m.rank.name)

def Readable (line : Text) : Prop := line.head? ≠ some '#' ∧ line.length ≤ 100

/-- The line says that the player has access. -/
def Means (p : Player) (raw : Text) : Prop :=
  Readable (trim isBlank raw) ∧
    (Names p (toLowerCase (trim isBlank raw)) ∨ NamesRank p (toLowerCase (trim isBlank raw)))

/-- `parseList` gives the player access for the line. -/
def Finds (p : Player) (raw : Text) : Prop :=
  Readable (trimLine raw) ∧ (Names p (toLowerCase (trimLine raw)) ∨ FindsRank p (toLowerCase (trimLine raw)))

def RankLine (line : Text) : Prop := line.head? ≠ some '@' ∧ '@' ∈ line

/-- A tab is left at an end of the line, or the line is about a rank. -/
def Crooked (raw : Text) : Prop :=
  ¬ Clean isTab (trimLine raw) ∨ RankLine (toLowerCase (trimLine raw))

/-! ## The four forms -/

section Forms
variable {p : Player} {l g r : Text}

theorem idxOf?_append_cons (hg : '@' ∉ g) : (g ++ '@' :: r).idxOf? '@' = some g.length := by
  induction g with
  | nil => rfl
  | cons c g ih =>
    simp only [List.mem_cons, not_or] at hg
    have : (c == '@') = false := by simp [Ne.symm hg.1]
    simp [List.idxOf?_cons, this, ih hg.2]

theorem split_eq {g' r' : Text} (hg : '@' ∉ g) (hg' : '@' ∉ g') (h : g ++ '@' :: r = g' ++ '@' :: r') :
    g = g' ∧ r = r' := by
  have hlength : g.length = g'.length := by
    have := congrArg (List.idxOf? '@') h
    rw [idxOf?_append_cons hg, idxOf?_append_cons hg'] at this
    exact Option.some.inj this
  obtain ⟨hgs, hrs⟩ := List.append_inj h hlength
  exact ⟨hgs, (List.cons.inj hrs).2⟩

theorem rankLine_of_append (hne : g ≠ []) (hg : '@' ∉ g) : RankLine (g ++ '@' :: r) := by
  cases g with
  | nil => exact absurd rfl hne
  | cons c g =>
    simp only [List.mem_cons, not_or] at hg
    exact ⟨by simp [Ne.symm hg.1], by simp⟩

theorem NamesRank.rankLine (h : NamesRank p l) : RankLine l := by
  obtain ⟨m, hm, hnamed, hplain⟩ := h
  exact rankLine_of_append (by simpa [toLowerCase] using hnamed) hplain

theorem FindsRank.rankLine (h : FindsRank p l) : RankLine l := by
  obtain ⟨m, hm, c, hplain, hfirst⟩ := h
  exact rankLine_of_append (by simp) hplain

theorem Names.not_rankLine (h : Names p l) : ¬ RankLine l := by
  cases h with
  | everyone => simp [RankLine]
  | player plain => exact fun h => plain '@' (by simp) h.2
  | guild m hm => exact fun h => h.1 rfl

theorem names_guild : Names p ('@' :: g) ↔ ∃ m ∈ p.membership, toLowerCase m.guild.name = g := by
  constructor
  · generalize hl : '@' :: g = l
    intro h
    cases h with
    | everyone => simp at hl
    | player plain => exact absurd (hl ▸ List.mem_cons_self) (plain '@' (by simp))
    | guild m hm => exact ⟨m, hm, (List.cons.inj hl).2.symm⟩
  · intro ⟨m, hm, h⟩
    exact h ▸ .guild m hm

theorem names_plain (hl : '@' ∉ l) :
    Names p l ↔ l = ['*'] ∨ ¬ ('!' ∈ l ∨ '*' ∈ l ∨ '?' ∈ l) ∧ toLowerCase p.name = l := by
  constructor
  · intro h
    cases h with
    | everyone => exact .inl rfl
    | player plain =>
      simp only [List.forall_mem_cons] at plain
      exact .inr ⟨by simp [plain], rfl⟩
    | guild m hm => simp at hl
  · rintro (rfl | ⟨hplain, rfl⟩)
    · exact .everyone
    · simp only [not_or] at hplain
      exact .player (by simp [hl, hplain])

theorem findsRank_split {front : Text} (hne : front ≠ []) (hfront : '@' ∉ front) : FindsRank p (front ++ '@' :: r) ↔
      ∃ m ∈ p.membership, toLowerCase m.guild.name = front.dropLast ∧ m.guild.getRankByName r = some m.rank := by
  constructor
  · generalize hl : front ++ '@' :: r = l
    intro h
    obtain ⟨m, hm, c, hplain, hfirst⟩ := h
    obtain ⟨rfl, rfl⟩ := split_eq hfront hplain hl
    exact ⟨m, hm, by simp, hfirst⟩
  · intro ⟨m, hm, hname, hfirst⟩
    obtain rfl := (Table.lookup_some hfirst).2
    have hlast := List.dropLast_append_getLast hne
    rw [← hlast, ← hname] at hfront ⊢
    exact .rank m hm _ hfront hfirst

end Forms

/-! ## Small letters -/

theorem toLower_toLower (c : Char) : c.toLower.toLower = c.toLower := by
  unfold Char.toLower
  grind

@[simp] theorem toLowerCase_toLowerCase (s : Text) : toLowerCase (toLowerCase s) = toLowerCase s := by
  rw [toLowerCase, toLowerCase, List.map_map]
  exact List.map_congr_left fun c _ => toLower_toLower c

theorem lower_of_append {s t : Text} (h : toLowerCase (s ++ t) = s ++ t) : toLowerCase s = s ∧ toLowerCase t = t := by
  simp only [toLowerCase, List.map_append] at h
  exact List.append_inj h (List.length_map _)

/-! ## The lookups -/

namespace World
variable {w : World} {s : Text} {q : Player} {g : Guild}

theorem getPlayerByName_eq_some (h : w.getPlayerByName s = some q) :
    q ∈ w.players ∧ toLowerCase q.name = toLowerCase s := by
  simp only [getPlayerByName] at h
  split at h
  · cases h
  · obtain ⟨hq, hname⟩ := Table.lookup_some h
    exact ⟨(List.mem_filter.mp hq).1, hname⟩

theorem player_eq (hq : q ∈ w.players) {p : Player} (hp : p ∈ w.players)
    (h : toLowerCase q.name = toLowerCase p.name) : q = p :=
  List.inj_on_of_nodup_map w.playerNames hq hp h

theorem guid_eq (hq : q ∈ w.players) {p : Player} (hp : p ∈ w.players) : q.guid = p.guid ↔ q = p :=
  ⟨fun h => List.inj_on_of_nodup_map w.guids hq hp h, fun h => h ▸ rfl⟩

theorem getGuildByName_eq_some_iff :
    w.getGuildByName s = some g ↔ g ∈ w.guilds ∧ toLowerCase g.name = toLowerCase s := by
  rw [← Table.lookup_eq_some_iff w.guildNames]
  rcases Option.eq_none_or_eq_some (Table.lookup (fun g => toLowerCase g.name) (toLowerCase s) w.guilds)
    with hname | ⟨g', hname⟩
  · simp [getGuildByName, getGuildIdByName, hname]
  · obtain ⟨hg', -⟩ := Table.lookup_some hname
    have hload : w.loadGuild g'.id = some g' := (Table.lookup_eq_some_iff w.guildIds).mpr ⟨hg', rfl⟩
    have hid : w.getGuildIdByName s = g'.id := by rw [getGuildIdByName, hname]
    simp only [getGuildByName, hid, hname, w.guildId_ne_zero g' hg', if_false, hload]
    cases hloaded : w.getGuild g'.id with
    | none => rfl
    | some g'' =>
      obtain ⟨hmem, hid⟩ := Table.lookup_some hloaded
      rw [List.inj_on_of_nodup_map w.guildIds (List.mem_filter.mp hmem).1 hg' hid]

end World

/-! ## One line -/

namespace AccessList
variable {w : World} {a : AccessList} {p : Player} {s : Text}

theorem isInList_iff : a.isInList p = true ↔
    a.allowEveryone = true ∨ p.guid ∈ a.playerList ∨ ∃ m ∈ p.membership, m.rank.id ∈ a.guildRankList := by
  unfold isInList
  cases p.membership with
  | none => split <;> simp_all
  | some m => split <;> simp_all

theorem isInList_addPlayer (hp : p ∈ w.players) :
    (a.addPlayer w s).isInList p = true ↔ a.isInList p = true ∨ toLowerCase p.name = toLowerCase s := by
  -- whoever is found under the name, it is `p` just when the name is that of `p`
  have hinsert : ∀ q ∈ w.players, toLowerCase q.name = toLowerCase s →
      (({ a with playerList := insert q.guid a.playerList } : AccessList).isInList p = true ↔
        a.isInList p = true ∨ toLowerCase p.name = toLowerCase s) := by
    intro q hq hname
    have hname : p.guid = q.guid ↔ toLowerCase p.name = toLowerCase s := by
      rw [w.guid_eq hp hq, ← hname]
      exact ⟨fun h => h ▸ rfl, w.player_eq hp hq⟩
    simp only [isInList_iff, Finset.mem_insert, hname]
    grind
  unfold addPlayer
  cases honline : w.getPlayerByName s with
  | some q =>
    obtain ⟨hq, hname⟩ := World.getPlayerByName_eq_some honline
    exact hinsert q hq hname
  | none =>
    rcases Option.eq_none_or_eq_some
      (Table.lookup (fun p => toLowerCase p.name) (toLowerCase s) w.players) with hfound | ⟨q, hfound⟩
    · have hother : toLowerCase p.name ≠ toLowerCase s := by
        intro h
        have := (Table.lookup_eq_some_iff w.playerNames).mpr ⟨hp, h⟩
        rw [hfound] at this
        cases this
      simp [World.getGuidByName, hfound, hother]
    · obtain ⟨hq, hname⟩ := Table.lookup_some hfound
      have hguid : w.getGuidByName s = q.guid := by rw [World.getGuidByName, hfound]
      simp only [hguid, ne_eq, w.guid_ne_zero q hq, not_false_eq_true, if_true]
      exact hinsert q hq hname

theorem isInList_addGuild (hp : p ∈ w.players) : (a.addGuild w s).isInList p = true ↔
    a.isInList p = true ∨ ∃ m ∈ p.membership, toLowerCase m.guild.name = toLowerCase s := by
  unfold addGuild
  cases hguild : w.getGuildByName s with
  | none =>
    have : ∀ m ∈ p.membership, toLowerCase m.guild.name ≠ toLowerCase s := by
      intro m hm h
      have := World.getGuildByName_eq_some_iff.mpr ⟨w.member p hp m hm, h⟩
      rw [hguild] at this
      cases this
    simp only [iff_self_or]
    intro ⟨m, hm, h⟩
    exact absurd h (this m hm)
  | some g =>
    obtain ⟨hg, hname⟩ := World.getGuildByName_eq_some_iff.mp hguild
    have hranks : ∀ m ∈ p.membership,
        (m.rank.id ∈ (g.ranks.map GuildRank.id).toFinset ↔ toLowerCase m.guild.name = toLowerCase s) := by
      intro m hm
      have hmem := w.member p hp m hm
      simp only [List.mem_toFinset, List.mem_map]
      constructor
      · intro ⟨r, hr, hid⟩
        rw [← hname, (w.rank_eq g hg m.guild hmem r hr m.rank m.rank_mem hid).1]
      · intro h
        obtain rfl : g = m.guild := List.inj_on_of_nodup_map w.guildNames hg hmem (hname.trans h.symm)
        exact ⟨m.rank, m.rank_mem, rfl⟩
    simp only [isInList_iff, Finset.mem_union]
    grind

theorem isInList_addGuildRank (hp : p ∈ w.players) {r : Text} :
    (a.addGuildRank w s r).isInList p = true ↔ a.isInList p = true ∨
      ∃ m ∈ p.membership, toLowerCase m.guild.name = toLowerCase s ∧ m.guild.getRankByName r = some m.rank := by
  unfold addGuildRank
  cases hguild : w.getGuildByName s with
  | none =>
    simp only [iff_self_or]
    intro ⟨m, hm, h, _⟩
    have := World.getGuildByName_eq_some_iff.mpr ⟨w.member p hp m hm, h⟩
    rw [hguild] at this
    cases this
  | some g =>
    obtain ⟨hg, hname⟩ := World.getGuildByName_eq_some_iff.mp hguild
    have hsame : ∀ m ∈ p.membership, toLowerCase m.guild.name = toLowerCase s → m.guild = g := by
      intro m hm h
      exact List.inj_on_of_nodup_map w.guildNames (w.member p hp m hm) hg (h.trans hname.symm)
    cases hrank : g.getRankByName r with
    | none =>
      simp only [hrank, iff_self_or]
      intro ⟨m, hm, h, hfirst⟩
      rw [hsame m hm h, hrank] at hfirst
      cases hfirst
    | some rank =>
      have hmem := (Table.lookup_some hrank).1
      have hranks : ∀ m ∈ p.membership, (m.rank.id = rank.id ↔
          toLowerCase m.guild.name = toLowerCase s ∧ m.guild.getRankByName r = some m.rank) := by
        intro m hm
        constructor
        · intro hid
          obtain ⟨hguilds, hranks⟩ :=
            w.rank_eq m.guild (w.member p hp m hm) g hg m.rank m.rank_mem rank hmem hid
          rw [hguilds, hranks]
          exact ⟨hname, hrank⟩
        · intro ⟨h, hfirst⟩
          rw [hsame m hm h, hrank] at hfirst
          rw [Option.some.inj hfirst]
      simp only [hrank, isInList_iff, Finset.mem_insert]
      grind

theorem not_names_nil (hp : p ∈ w.players) : ¬ Names p [] := by
  rw [names_plain (by simp)]
  simpa [toLowerCase] using w.player_named p hp

theorem isInList_parseLine (hp : p ∈ w.players) (raw : Text) :
    (a.parseLine w raw).isInList p = true ↔ a.isInList p = true ∨ Finds p raw := by
  simp only [parseLine, Finds, Readable]
  have hlower := toLowerCase_toLowerCase (trimLine raw)
  have hempty : trimLine raw = [] ↔ toLowerCase (trimLine raw) = [] := by simp [toLowerCase]
  generalize toLowerCase (trimLine raw) = l at hlower hempty
  split
  · rename_i hskip
    have hnone : ¬ (((trimLine raw).head? ≠ some '#' ∧ (trimLine raw).length ≤ 100) ∧
        (Names p l ∨ FindsRank p l)) := by
      rintro ⟨⟨hcomment, hlong⟩, hform⟩
      rcases hskip with hnil | hskip | hskip
      · rw [hempty.mp hnil] at hform
        exact hform.elim (not_names_nil hp) fun h => by simpa using h.rankLine.2
      · exact hcomment hskip
      · omega
    simp only [hnone, or_false]
  · rename_i hread
    simp only [not_or, not_lt] at hread
    simp only [ne_eq, hread, not_false_eq_true, true_and]
    by_cases hat : '@' ∈ l
    · obtain ⟨front, r, rfl, hfront⟩ := List.eq_append_cons_of_mem hat
      rw [idxOf?_append_cons hfront]
      cases front with
      | nil =>
        have hnot : ¬ FindsRank p ('@' :: r) := fun h => h.rankLine.1 rfl
        have hr : toLowerCase r = r := (List.cons.inj hlower).2
        simp [isInList_addGuild hp, names_guild, hnot, hr]
      | cons c front =>
        have hrank : RankLine (c :: front ++ '@' :: r) := rankLine_of_append (by simp) hfront
        have hnot : ¬ Names p (c :: front ++ '@' :: r) := fun h => h.not_rankLine hrank
        have hguild : (c :: front ++ '@' :: r).take ((c :: front).length - 1) = (c :: front).dropLast := by
          rw [List.take_append_of_le_length (by simp), List.dropLast_eq_take]
        have hrankName : (c :: front ++ '@' :: r).drop ((c :: front).length + 1) = r := by
          rw [List.drop_append, List.drop_of_length_le (by simp)]
          simp
        have hlowerGuild : toLowerCase (c :: front).dropLast = (c :: front).dropLast := by
          rw [toLowerCase, List.map_dropLast, ← toLowerCase, (lower_of_append hlower).1]
        have hpos : ¬ (c :: front).length = 0 := by simp
        simp only [hpos, if_false]
        rw [hguild, hrankName, isInList_addGuildRank hp, hlowerGuild,
          findsRank_split (List.cons_ne_nil c front) hfront]
        simp only [hnot, false_or]
    · rw [List.idxOf?_eq_none_iff.mpr hat, names_plain hat]
      have hnot : ¬ FindsRank p l := fun h => hat h.rankLine.2
      simp only [hnot, or_false]
      split
      · rename_i heveryone
        simp [isInList_iff, heveryone]
      · rename_i hone
        split
        · rename_i hpattern
          simp [hone, hpattern]
        · rename_i hpattern
          simp only [isInList_addPlayer hp, hlower, hone, hpattern, false_or, not_false_eq_true, true_and]

theorem isInList_parseLines (hp : p ∈ w.players) (lines : List Text) (lineNo : ℕ) (a : AccessList) :
    (parseLines w lineNo lines a).isInList p = true ↔
      a.isInList p = true ∨ ∃ raw ∈ lines.take (100 - lineNo), Finds p raw := by
  induction lines generalizing lineNo a with
  | nil => simp [parseLines]
  | cons line rest ih =>
    simp only [parseLines]
    split
    · have : 100 - lineNo = 0 := by omega
      simp [this]
    · have : 100 - lineNo = (100 - (lineNo + 1)) + 1 := by omega
      rw [ih, isInList_parseLine hp, this, List.take_succ_cons, or_assoc]
      simp

theorem isInList_parseList (hp : p ∈ w.players) (list : Text) :
    (parseList w list).isInList p = true ↔ ∃ raw ∈ (getlines list).take 99, Finds p raw := by
  have hempty : ({ list := list } : AccessList).isInList p = false := by
    cases hm : p.membership <;> simp [isInList, hm]
  unfold parseList
  split
  · subst list
    simp [getlines, hempty]
  · rw [isInList_parseLines hp, hempty]
    simp

end AccessList

/-! ## The meaning of a line -/

theorem strips_trimLine (raw : Text) : Strips isBlank raw (trimLine raw) := by
  have hspace : ∀ c, isSpace c = true → isBlank c = true := fun c hc => by simp [isBlank, hc]
  have htab : ∀ c, isTab c = true → isBlank c = true := fun c hc => by simp [isBlank, hc]
  have hfirst : Strips isBlank raw (trimString raw) := (strips_trim isSpace raw).mono hspace
  have hleft := hfirst.trans ((strips_dropWhile isTab _).mono htab)
  have hright := hleft.trans ((strips_rdropWhile isTab _).mono htab)
  exact hright.trans ((strips_trim isSpace _).mono hspace)

theorem trimLine_eq (raw : Text) (h : Clean isTab (trimLine raw)) : trimLine raw = trim isBlank raw := by
  refine ((strips_trimLine raw).trim_eq ?_).symm
  have hspace : Clean isSpace (trimLine raw) := trim_clean isSpace _
  constructor
  · intro c hc
    simp [isBlank, hspace.1 c hc, h.1 c hc]
  · intro c hc
    simp [isBlank, hspace.2 c hc, h.2 c hc]

/-- The code reads a line as it is meant unless the line is crooked. -/
theorem finds_iff_means {p : Player} {raw : Text} (h : ¬ Crooked raw) : Finds p raw ↔ Means p raw := by
  simp only [Crooked, not_or, not_not] at h
  have hline := trimLine_eq raw h.1
  have hmeans : ¬ NamesRank p (toLowerCase (trimLine raw)) := fun hn => h.2 hn.rankLine
  have hfinds : ¬ FindsRank p (toLowerCase (trimLine raw)) := fun hn => h.2 hn.rankLine
  simp only [Finds, Means, ← hline, hmeans, hfinds]

/-- The text says that the player is in the list. -/
def Listed (p : Player) (list : Text) : Prop := ∃ raw ∈ (getlines list).take 99, Means p raw

/-- The list is right about a player just when a line that is not crooked names him, or his
crooked lines are read as wanted, taken together: one names him and one finds him, or none does either. -/
theorem parseList_means_iff (w : World) (list : Text) (p : { p // p ∈ w.players }) :
    ((AccessList.parseList w list).isInList p = true ↔ Listed p list) ↔
      (∃ raw ∈ (getlines list).take 99, ¬ Crooked raw ∧ Means p raw) ∨
      ((∃ raw ∈ (getlines list).take 99, Crooked raw ∧ Means p raw) ∧
        ∃ raw ∈ (getlines list).take 99, Crooked raw ∧ Finds p raw) ∨
      ∀ raw ∈ (getlines list).take 99, Crooked raw → ¬ Means p raw ∧ ¬ Finds p raw := by
  rw [AccessList.isInList_parseList p.2, Listed]
  generalize (getlines list).take 99 = lines
  have hmeans : (∃ raw ∈ lines, Means p raw) ↔
      (∃ raw ∈ lines, ¬ Crooked raw ∧ Means p raw) ∨ ∃ raw ∈ lines, Crooked raw ∧ Means p raw := by
    grind
  have hfinds : (∃ raw ∈ lines, Finds p raw) ↔
      (∃ raw ∈ lines, ¬ Crooked raw ∧ Means p raw) ∨ ∃ raw ∈ lines, Crooked raw ∧ Finds p raw := by
    grind [finds_iff_means]
  rw [hmeans, hfinds]
  grind

/-! ## A rank that is not found -/

def leader : GuildRank := ⟨1, ['L', 'e', 'a', 'd', 'e', 'r']⟩
def knights : Guild := ⟨1, ['K', 'n', 'i', 'g', 'h', 't', 's'], [leader], true⟩
def galahad : Player := ⟨1, ['G', 'a', 'l', 'a', 'h', 'a', 'd'], true, some ⟨knights, leader, by decide⟩⟩

def camelot : World where
  players := [galahad]
  guilds := [knights]
  guids := by decide
  playerNames := by decide
  guildIds := by decide
  guildNames := by decide
  guid_ne_zero := by decide
  guildId_ne_zero := by decide
  player_named := by decide
  rank_eq := by decide
  member := by decide

def invitation : Text := ['k', 'n', 'i', 'g', 'h', 't', 's', '@', 'l', 'e', 'a', 'd', 'e', 'r']

/-- The leader of the knights is listed and not in the list. -/
theorem leader_locked_out : galahad ∈ camelot.players ∧ Listed galahad invitation ∧
    (AccessList.parseList camelot invitation).isInList galahad = false := by
  refine ⟨by decide, ⟨invitation, by decide, ⟨by decide, by decide⟩, .inr ?_⟩, by decide⟩
  exact NamesRank.rank (p := galahad) ⟨knights, leader, by decide⟩ (by decide) (by decide) (by decide)

end ForgottenServer.Houses
