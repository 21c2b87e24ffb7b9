import ForgottenServer.Lib.Numerals
import ForgottenServer.Lib.Run
import Mathlib.Data.List.Nodup
import Mathlib.Logic.Function.Basic

/-! # Guild alliances

`GuildEnhanced.addAlliance` and `GuildEnhanced.removeAlliance` keep a text for
each guild, the ids of its allies with commas between them. A guild id is that of
a row and positive, and the statements succeed. -/
namespace ForgottenServer.Guild.Alliances
open ForgottenServer.Lib.Run ForgottenServer.Lib.Numerals

/-- `GuildEnhanced.config.maxAlliances`. -/
def maxAlliances : ℕ := 3

/-- The values of `guild_storage` under `GUILD_ALLIES_BASE`. -/
abbrev Storage := ℕ → Option (List Char)

abbrev Answer := Bool × String

def getAllies (s : Storage) (guildId : ℕ) : List ℕ :=
  if guildId = 0 then []
  else match s guildId with
    | some allyStr => digitRuns none allyStr
    | none => []

def areAllied (s : Storage) (guildId1 guildId2 : ℕ) : Bool := guildId2 ∈ getAllies s guildId1

def saveAllies (s : Storage) (guildId : ℕ) (allies : List ℕ) : Storage :=
  Function.update s guildId (some (concat allies))

def addAlliance (s : Storage) (guildId1 guildId2 : ℕ) : Storage × Answer :=
  if areAllied s guildId1 guildId2 then (s, false, "These guilds are already allied.")
  else
    let allies1 := getAllies s guildId1
    let allies2 := getAllies s guildId2
    if maxAlliances ≤ allies1.length then
      (s, false, "Your guild has reached the maximum number of alliances.")
    else if maxAlliances ≤ allies2.length then
      (s, false, "The other guild has reached the maximum number of alliances.")
    else
      let s := saveAllies s guildId1 (allies1 ++ [guildId2])
      let s := saveAllies s guildId2 (allies2 ++ [guildId1])
      (s, true, "Alliance established.")

def removeFromList (s : Storage) (guildId removeId : ℕ) : Storage :=
  saveAllies s guildId ((getAllies s guildId).filter fun id => id ≠ removeId)

def removeAlliance (s : Storage) (guildId1 guildId2 : ℕ) : Storage × Answer :=
  if !areAllied s guildId1 guildId2 then (s, false, "These guilds are not allied.")
  else
    let s := removeFromList s guildId1 guildId2
    let s := removeFromList s guildId2 guildId1
    (s, true, "Alliance dissolved.")

abbrev GuildId := { n : ℕ // n ≠ 0 }

inductive Call
  | addAlliance (a b : GuildId)
  | removeAlliance (a b : GuildId)

def step (s : Storage) : Call → Storage
  | .addAlliance a b => (addAlliance s a b).1
  | .removeAlliance a b => (removeAlliance s a b).1

/-! ## The lists -/

variable {s : Storage} {a b : GuildId}

def allies (s : Storage) (a : GuildId) : List ℕ := getAllies s a

@[simp] theorem allies_saveAllies_self (s : Storage) (a : GuildId) (l : List ℕ) :
    allies (saveAllies s a l) a = l := by
  rw [allies, getAllies, if_neg a.2, saveAllies, Function.update_self]
  exact digitRuns_concat l

theorem allies_saveAllies_of_ne {g : GuildId} (h : g ≠ a) (s : Storage) (l : List ℕ) :
    allies (saveAllies s a l) g = allies s g := by
  have hne : (g : ℕ) ≠ a := fun heq => h (Subtype.ext heq)
  rw [allies, allies, getAllies, getAllies, saveAllies, Function.update_of_ne hne]

/-- The lists say the same of any two guilds, no guild is its own ally or twice that of
another, there are not too many, and a new alliance can be taken back. -/
structure Sound (s : Storage) : Prop where
  symmetric : ∀ a b : GuildId, b.1 ∈ allies s a ↔ a.1 ∈ allies s b
  irreflexive : ∀ a : GuildId, a.1 ∉ allies s a
  nodup : ∀ a, (allies s a).Nodup
  bounded : ∀ a, (allies s a).length ≤ maxAlliances
  undone : ∀ a b : GuildId, (addAlliance s a b).2.1 = true →
    ∀ g, (allies (removeAlliance (addAlliance s a b).1 a b).1 g).Perm (allies s g)

theorem addAlliance_cases (s : Storage) (a b : GuildId) :
    ((addAlliance s a b).1 = s ∧ (addAlliance s a b).2.1 = false ∧
      (b.1 ∈ allies s a ∨ maxAlliances ≤ (allies s a).length ∨
        maxAlliances ≤ (allies s b).length)) ∨
    (b.1 ∉ allies s a ∧ (allies s a).length < maxAlliances ∧ (allies s b).length < maxAlliances ∧
      (addAlliance s a b).1 = saveAllies (saveAllies s a (allies s a ++ [b.1])) b
        (allies s b ++ [a.1])) := by
  unfold addAlliance areAllied
  by_cases hallied : b.1 ∈ getAllies s a
  · rw [if_pos (decide_eq_true hallied)]
    exact .inl ⟨rfl, rfl, .inl hallied⟩
  · rw [if_neg (by simpa using hallied)]
    dsimp only
    split
    · rename_i hfull
      exact .inl ⟨rfl, rfl, .inr (.inl hfull)⟩
    · rename_i hroom
      split
      · rename_i hfull
        exact .inl ⟨rfl, rfl, .inr (.inr hfull)⟩
      · rename_i hroom'
        exact .inr ⟨hallied, not_le.mp hroom, not_le.mp hroom', rfl⟩

theorem removeAlliance_cases (s : Storage) (a b : GuildId) :
    ((removeAlliance s a b).1 = s ∧ b.1 ∉ allies s a) ∨
    b.1 ∈ allies s a ∧ (removeAlliance s a b).1 = removeFromList (removeFromList s a b) b a := by
  unfold removeAlliance areAllied
  by_cases hallied : b.1 ∈ getAllies s a
  · rw [if_neg (by simpa using hallied)]
    exact .inr ⟨hallied, rfl⟩
  · rw [if_pos (by simpa using hallied)]
    exact .inl ⟨rfl, hallied⟩

theorem allies_removeFromList_self (s : Storage) (a : GuildId) (n : ℕ) :
    allies (removeFromList s a n) a = (allies s a).filter fun id => id ≠ n :=
  allies_saveAllies_self s a _

theorem allies_removeFromList_of_ne {g : GuildId} (h : g ≠ a) (s : Storage) (n : ℕ) :
    allies (removeFromList s a n) g = allies s g := allies_saveAllies_of_ne h s _

theorem allies_save_two {l l' : List ℕ} (hne : a ≠ b) (s : Storage) :
    allies (saveAllies (saveAllies s a l) b l') a = l ∧
      allies (saveAllies (saveAllies s a l) b l') b = l' ∧
      ∀ g, g ≠ a → g ≠ b → allies (saveAllies (saveAllies s a l) b l') g = allies s g :=
  ⟨by rw [allies_saveAllies_of_ne hne, allies_saveAllies_self], allies_saveAllies_self _ _ _,
    fun g ha hb => by rw [allies_saveAllies_of_ne hb, allies_saveAllies_of_ne ha]⟩

theorem allies_remove_two (hne : a ≠ b) (s : Storage) :
    allies (removeFromList (removeFromList s a b) b a) a =
      (allies s a).filter (fun id => id ≠ b.1) ∧
    allies (removeFromList (removeFromList s a b) b a) b =
      (allies s b).filter (fun id => id ≠ a.1) ∧
      ∀ g, g ≠ a → g ≠ b → allies (removeFromList (removeFromList s a b) b a) g = allies s g :=
  ⟨by rw [allies_removeFromList_of_ne hne, allies_removeFromList_self],
    by rw [allies_removeFromList_self, allies_removeFromList_of_ne hne.symm],
    fun g ha hb => by rw [allies_removeFromList_of_ne hb, allies_removeFromList_of_ne ha]⟩

theorem filter_snoc {l : List ℕ} {n : ℕ} (h : n ∉ l) :
    (l ++ [n]).filter (fun id => id ≠ n) = l := by
  rw [List.filter_append, List.filter_cons_of_neg (by simp), List.filter_nil, List.append_nil]
  exact List.filter_eq_self.mpr fun id hid => decide_eq_true fun (heq : id = n) => h (heq ▸ hid)

theorem removeAlliance_addAlliance
    (hsymmetric : ∀ a b : GuildId, b.1 ∈ allies s a ↔ a.1 ∈ allies s b)
    (h : (addAlliance s a b).2.1 = true) (g : GuildId) :
    allies (removeAlliance (addAlliance s a b).1 a b).1 g = allies s g := by
  rcases addAlliance_cases s a b with ⟨-, hno, -⟩ | ⟨hb, -, -, heq⟩
  · rw [hno] at h
    cases h
  have ha : a.1 ∉ allies s b := fun h => hb ((hsymmetric a b).mpr h)
  rw [heq]
  by_cases hab : a = b
  · subst hab
    have hself (l l' : List ℕ) : allies (saveAllies (saveAllies s a l) a l') a = l' :=
      allies_saveAllies_self _ _ _
    rcases removeAlliance_cases (saveAllies (saveAllies s a (allies s a ++ [a.1])) a
      (allies s a ++ [a.1])) a a
      with ⟨-, hnot⟩ | ⟨-, hremove⟩
    · rw [hself] at hnot
      exact absurd (List.mem_append_right _ (List.mem_singleton_self _)) hnot
    · rw [hremove]
      by_cases hg : g = a
      · subst hg
        rw [allies_removeFromList_self, allies_removeFromList_self, hself, filter_snoc hb]
        exact List.filter_eq_self.mpr fun id hid => decide_eq_true
          fun (heq : id = g.1) => hb (heq ▸ hid)
      · rw [allies_removeFromList_of_ne hg, allies_removeFromList_of_ne hg,
          allies_saveAllies_of_ne hg, allies_saveAllies_of_ne hg]
  · obtain ⟨hsave, hsave', hother⟩ := @allies_save_two a b (allies s a ++ [b.1])
      (allies s b ++ [a.1]) hab s
    rcases removeAlliance_cases (saveAllies (saveAllies s a (allies s a ++ [b.1])) b
      (allies s b ++ [a.1])) a b
      with ⟨-, hnot⟩ | ⟨-, hremove⟩
    · rw [hsave] at hnot
      exact absurd (List.mem_append_right _ (List.mem_singleton_self _)) hnot
    · obtain ⟨hdrop, hdrop', hother'⟩ :=
        allies_remove_two hab (saveAllies (saveAllies s a (allies s a ++ [b.1])) b
          (allies s b ++ [a.1]))
      rw [hremove]
      by_cases hga : g = a
      · rw [hga, hdrop, hsave, filter_snoc hb]
      · by_cases hgb : g = b
        · rw [hgb, hdrop', hsave', filter_snoc ha]
        · rw [hother' g hga hgb, hother g hga hgb]

theorem Sound.of (hsymmetric : ∀ a b : GuildId, b.1 ∈ allies s a ↔ a.1 ∈ allies s b)
    (hirreflexive : ∀ a : GuildId, a.1 ∉ allies s a) (hnodup : ∀ a, (allies s a).Nodup)
    (hbounded : ∀ a, (allies s a).length ≤ maxAlliances) : Sound s :=
  ⟨hsymmetric, hirreflexive, hnodup, hbounded,
    fun _ _ h g => .of_eq (removeAlliance_addAlliance hsymmetric h g)⟩

/-! ## Runs -/

/-- A guild is not made its own ally: another guild is named, or the list is full. -/
def keepsApart (s : Storage) : Call → Prop
  | .addAlliance a b => a ≠ b ∨ maxAlliances ≤ (allies s a).length
  | .removeAlliance _ _ => True

theorem addAlliance_sound (hs : Sound s) (a b : GuildId) :
    Sound (addAlliance s a b).1 ↔ keepsApart s (.addAlliance a b) := by
  rcases addAlliance_cases s a b with ⟨heq, -, hwhy⟩ | ⟨hb, hroom, hroom', heq⟩
  · rw [heq]
    refine iff_of_true hs ?_
    rcases hwhy with hallied | hfull | hfull
    · exact .inl fun hab => hs.irreflexive a (by rwa [← hab] at hallied)
    · exact .inr hfull
    · by_cases hab : a = b
      · exact .inr (by rwa [← hab] at hfull)
      · exact .inl hab
  · rw [heq]
    constructor
    · intro h
      by_contra hno
      obtain ⟨hab, -⟩ := not_or.mp hno
      obtain rfl : a = b := not_not.mp hab
      refine h.irreflexive a ?_
      rw [allies_saveAllies_self]
      exact List.mem_append_right _ (List.mem_singleton_self _)
    · rintro (hab | hfull)
      · obtain ⟨hsave, hsave', hother⟩ :=
          @allies_save_two a b (allies s a ++ [b.1]) (allies s b ++ [a.1]) hab s
        have ha : a.1 ∉ allies s b := fun h => hb ((hs.symmetric a b).mpr h)
        have hval : a.1 ≠ b.1 := fun h => hab (Subtype.ext h)
        -- what stands in each list afterwards
        have hmem (g x : GuildId) : x.1 ∈ allies
            (saveAllies (saveAllies s a (allies s a ++ [b.1])) b
            (allies s b ++ [a.1])) g ↔ x.1 ∈ allies s g ∨ g = a ∧ x = b ∨ g = b ∧ x = a := by
          by_cases hga : g = a
          · subst hga
            simp [hsave, hab, Subtype.ext_iff]
          · by_cases hgb : g = b
            · subst hgb
              simp [hsave', hga, Subtype.ext_iff]
            · rw [hother g hga hgb]
              simp [hga, hgb]
        refine Sound.of (fun g x => ?_) (fun g hg => ?_) (fun g => ?_) fun g => ?_
        · rw [hmem, hmem, hs.symmetric g x]
          tauto
        · rcases (hmem g g).mp hg with h | ⟨rfl, rfl⟩ | ⟨rfl, rfl⟩
          · exact hs.irreflexive g h
          · exact hab rfl
          · exact hab rfl
        · by_cases hga : g = a
          · rw [hga, hsave]
            exact (hs.nodup a).append (List.nodup_singleton _) (List.disjoint_singleton.mpr hb)
          · by_cases hgb : g = b
            · rw [hgb, hsave']
              exact (hs.nodup b).append (List.nodup_singleton _) (List.disjoint_singleton.mpr ha)
            · rw [hother g hga hgb]
              exact hs.nodup g
        · by_cases hga : g = a
          · rw [hga, hsave, List.length_append, List.length_singleton]
            exact hroom
          · by_cases hgb : g = b
            · rw [hgb, hsave', List.length_append, List.length_singleton]
              exact hroom'
            · rw [hother g hga hgb]
              exact hs.bounded g
      · exact absurd hfull (not_le.mpr hroom)

theorem removeAlliance_sound (hs : Sound s) (a b : GuildId) : Sound (removeAlliance s a b).1 := by
  rcases removeAlliance_cases s a b with ⟨heq, -⟩ | ⟨hb, heq⟩
  · rwa [heq]
  · have hab : a ≠ b := fun h => hs.irreflexive a (by rwa [← h] at hb)
    obtain ⟨hdrop, hdrop', hother⟩ := allies_remove_two hab s
    have hmem (g x : GuildId) : x.1 ∈ allies (removeFromList (removeFromList s a b) b a) g ↔
        x.1 ∈ allies s g ∧ ¬ (g = a ∧ x = b) ∧ ¬ (g = b ∧ x = a) := by
      by_cases hga : g = a
      · subst hga
        simp [hdrop, hab, Subtype.ext_iff]
      · by_cases hgb : g = b
        · subst hgb
          simp [hdrop', hga, Subtype.ext_iff]
        · rw [hother g hga hgb]
          simp [hga, hgb]
    have hsub (g : GuildId) : (allies (removeFromList (removeFromList s a b) b a) g).Sublist
        (allies s g) := by
      by_cases hga : g = a
      · rw [hga, hdrop]
        exact List.filter_sublist
      · by_cases hgb : g = b
        · rw [hgb, hdrop']
          exact List.filter_sublist
        · rw [hother g hga hgb]
    rw [heq]
    refine Sound.of (fun g x => ?_) (fun g hg => hs.irreflexive g ((hsub g).subset hg))
      (fun g => (hs.nodup g).sublist (hsub g)) fun g => (hsub g).length_le.trans (hs.bounded g)
    rw [hmem, hmem, hs.symmetric g x]
    tauto

theorem step_sound (hs : Sound s) (c : Call) : Sound (step s c) ↔ keepsApart s c := by
  cases c with
  | addAlliance a b => exact addAlliance_sound hs a b
  | removeAlliance a b => exact iff_of_true (removeAlliance_sound hs a b) trivial

theorem empty_sound : Sound fun _ => none := by
  have hnone (g : GuildId) : allies (fun _ => none) g = [] := by rw [allies, getAllies, if_neg g.2]
  refine Sound.of (fun g x => ?_) (fun g => ?_) (fun g => ?_) fun g => ?_ <;> simp only [hnone]
  · exact iff_of_false List.not_mem_nil List.not_mem_nil
  · exact List.not_mem_nil
  · exact List.nodup_nil
  · exact Nat.zero_le _

/-- Starting without alliances, the lists are sound in every state of a run exactly if
no call of the run makes a guild its own ally. -/
theorem alliances_stay_sound (cs : List Call) :
    (∀ pre, pre <+: cs → Sound (run step (fun _ => none) pre)) ↔
      Along step keepsApart (fun _ => none) cs :=
  @inv_reached_iff _ _ step keepsApart Sound (fun _ c hs => step_sound hs c) _ cs empty_sound

/-- A guild that asks for an alliance with itself gets it. -/
theorem own_ally : ¬ Sound (step (fun _ => none) (.addAlliance ⟨5, by decide⟩ ⟨5, by decide⟩)) :=
  fun h => h.irreflexive ⟨5, by decide⟩ (by decide)

end ForgottenServer.Guild.Alliances
