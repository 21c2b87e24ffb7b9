import ForgottenServer.Lib.Run
import Mathlib.Data.List.Perm.Basic
import Mathlib.Data.List.Range
import Mathlib.Logic.Function.Basic
import Mathlib.Tactic.Common

/-! # Script environments

Every call of a script takes the next of sixteen environments (`reserveScriptEnv`) and
gives it back at its end (`resetScriptEnv`); a script that makes the server call another
one keeps its own meanwhile. The environment holds the items the script made and has not
put anywhere, which are released with it. The results of its queries are in one table for
all scripts. A call that finds no environment is refused, and the index stays where
`reserveScriptEnv` has put it. -/
namespace ForgottenServer.Scripts.Environments
open ForgottenServer.Lib.Run

/-- What the events and callbacks set. `curNpc`, which `resetEnv` keeps, is left out. -/
structure ScriptEnvironment where
  scriptId : ℤ := 0
  callbackId : ℤ := 0
  timerEvent : Bool := false
  deriving DecidableEq, Repr

/-- What the server calls a script for. -/
inductive Call
  | event (scriptId : ℤ)
  | callback (callbackId : ℤ)
  | timer (scriptId : ℤ)
  deriving DecidableEq, Repr

def Call.set (env : ScriptEnvironment) : Call → ScriptEnvironment
  | .event scriptId => { env with scriptId }
  | .callback callbackId => { env with callbackId }
  | .timer scriptId => { env with timerEvent := true, scriptId }

/-- `setCallbackId` finds another callback. -/
def Call.nests (env : ScriptEnvironment) : Call → Bool
  | .callback _ => env.callbackId ≠ 0
  | _ => false

/-- A script that runs, or waits for one that it has caused. -/
structure Frame where
  call : Call
  /-- its items that are nowhere -/
  made : List ℕ := []
  /-- its results that it has not freed -/
  results : List ℕ := []
  deriving DecidableEq, Repr

structure LuaScriptInterface where
  scriptEnvIndex : ℤ := -1
  /-- an array of sixteen in the source, where what the reset after a refused call resets lies
  past its end -/
  scriptEnv : ℤ → ScriptEnvironment := fun _ => {}
  tempItems : List (ℤ × ℕ) := []
  tempResults : List ℕ := []
  lastResultId : ℕ := 0
  /-- the innermost script first -/
  frames : List Frame := []
  refused : ℕ := 0
  /-- the callbacks that `setCallbackId` turned away -/
  nested : ℕ := 0
  /-- the items made so far -/
  created : ℕ := 0
  placed : List ℕ := []
  released : List ℕ := []

/-- The items in an environment. -/
def LuaScriptInterface.itemsOf (s : LuaScriptInterface) (k : ℤ) : List ℕ := (s.tempItems.filter (·.1 = k)).map (·.2)

/-- `resetEnv`, for the environment of the index, and one step back. -/
def LuaScriptInterface.resetScriptEnv (s : LuaScriptInterface) : LuaScriptInterface :=
  { s with
    scriptEnv := Function.update s.scriptEnv s.scriptEnvIndex {}
    tempResults := []
    tempItems := s.tempItems.filter (·.1 ≠ s.scriptEnvIndex)
    released := s.released ++ s.itemsOf s.scriptEnvIndex
    scriptEnvIndex := s.scriptEnvIndex - 1 }

/-- A call of a script up to its first instruction. -/
def LuaScriptInterface.enter (s : LuaScriptInterface) (call : Call) : LuaScriptInterface :=
  let i := s.scriptEnvIndex + 1
  let s := { s with scriptEnvIndex := i }
  if i < 16 then
    if call.nests (s.scriptEnv i) then { s.resetScriptEnv with nested := s.nested + 1 }
    else
      { s with
        scriptEnv := Function.update s.scriptEnv i (call.set (s.scriptEnv i))
        frames := { call } :: s.frames }
  else { s with refused := s.refused + 1 }

inductive Event
  | call (call : Call)
  /-- the innermost script ends -/
  | return
  /-- it makes an item without a place (`addTempItem`) -/
  | createItem
  /-- an item gets a place (`removeTempItem`) -/
  | placeItem (item : ℕ)
  /-- `addResult` -/
  | storeQuery
  /-- `removeResult` -/
  | free (id : ℕ)

def Frame.without (f : Frame) (item : ℕ) : Frame := { f with made := f.made.filter (· ≠ item) }

def Frame.freed (f : Frame) (id : ℕ) : Frame := { f with results := f.results.filter (· ≠ id) }

/-- One step. What only a script can do does not happen when none runs. -/
def step (s : LuaScriptInterface) : Event → LuaScriptInterface
  | .call call => s.enter call
  | .return =>
    match s.frames with
    | [] => s
    | _ :: rest => { s.resetScriptEnv with frames := rest }
  | .createItem =>
    match s.frames with
    | [] => s
    | f :: rest =>
      { s with
        tempItems := s.tempItems ++ [(s.scriptEnvIndex, s.created)]
        created := s.created + 1
        frames := { f with made := f.made ++ [s.created] } :: rest }
  | .placeItem item =>
    if item ∈ s.tempItems.map (·.2) then
      { s with
        tempItems := s.tempItems.eraseP (·.2 = item)
        placed := s.placed ++ [item]
        frames := s.frames.map (·.without item) }
    else s
  | .storeQuery =>
    match s.frames with
    | [] => s
    | f :: rest =>
      let id := s.lastResultId + 1
      { s with
        lastResultId := id
        tempResults := s.tempResults ++ [id]
        frames := { f with results := f.results ++ [id] } :: rest }
  | .free id =>
    { s with
      tempResults := s.tempResults.filter (· ≠ id)
      frames := s.frames.map (·.freed id) }

/-! ## The index -/

variable {s : LuaScriptInterface}

/-- Every call that was refused has cost one environment for good. -/
def LuaScriptInterface.Counted (s : LuaScriptInterface) : Prop :=
  s.scriptEnvIndex = s.frames.length + s.refused - 1

theorem step_counted (h : s.Counted) (e : Event) : (step s e).Counted := by
  unfold LuaScriptInterface.Counted at h ⊢
  cases e with
  | call call =>
    simp only [step, LuaScriptInterface.enter]
    split
    · split
      · simp only [LuaScriptInterface.resetScriptEnv]
        omega
      · simp only [List.length_cons]
        omega
    · simp only
      omega
  | «return» =>
    simp only [step]
    split
    · exact h
    · rename_i f rest hframes
      rw [hframes, List.length_cons] at h
      simp only [LuaScriptInterface.resetScriptEnv]
      omega
  | createItem =>
    simp only [step]
    split
    · exact h
    · rename_i f rest hframes
      rw [hframes] at h
      exact h
  | placeItem item =>
    simp only [step]
    split
    · rw [List.length_map]
      exact h
    · exact h
  | storeQuery =>
    simp only [step]
    split
    · exact h
    · rename_i f rest hframes
      rw [hframes] at h
      exact h
  | free id =>
    simp only [step, List.length_map]
    exact h

/-- However scripts call each other, a call is refused exactly if the scripts that run and
the calls refused before are sixteen together. -/
theorem refused_iff (events : List Event) :
    let s := run step {} events
    ∀ call, (step s (.call call)).refused = s.refused + 1 ↔ 16 ≤ s.frames.length + s.refused := by
  intro s call
  have hcounted : s.Counted := by
    refine @inv_run _ _ step (fun _ _ => True) LuaScriptInterface.Counted (fun _ e h _ => step_counted h e) _ _ rfl ?_
    exact Along.of_forall fun _ _ => trivial
  unfold LuaScriptInterface.Counted at hcounted
  simp only [step, LuaScriptInterface.enter]
  split
  · split
    · simp only [LuaScriptInterface.resetScriptEnv]
      omega
    · simp only
      omega
  · refine ⟨fun _ => ?_, fun _ => rfl⟩
    omega

/-! ## The items -/

/-- Every item that a script has made without a place has one by now, or was released, or
is in one of the environments. -/
def LuaScriptInterface.Kept (s : LuaScriptInterface) : Prop :=
  (s.placed ++ s.released ++ s.tempItems.map (·.2)).Perm (List.range s.created)

theorem LuaScriptInterface.Kept.nodup (h : s.Kept) : (s.tempItems.map (·.2)).Nodup :=
  (List.nodup_append.mp (h.nodup_iff.mpr List.nodup_range)).2.1

theorem eraseP_eq_filter {items : List (ℤ × ℕ)} (h : (items.map (·.2)).Nodup) (item : ℕ) :
    items.eraseP (·.2 = item) = items.filter (·.2 ≠ item) := by
  induction items with
  | nil => rfl
  | cons first items ih =>
    obtain ⟨hfirst, hrest⟩ := List.nodup_cons.mp h
    by_cases hitem : first.2 = item
    · rw [List.eraseP_cons_of_pos (by simpa using hitem), List.filter_cons_of_neg (by simpa using hitem)]
      refine (List.filter_eq_self.mpr fun t ht => ?_).symm
      simp only [ne_eq, decide_not, Bool.not_eq_true', decide_eq_false_iff_not]
      rintro rfl
      exact hfirst (List.mem_map.mpr ⟨t, ht, hitem.symm⟩)
    · rw [List.eraseP_cons_of_neg (by simpa using hitem), List.filter_cons_of_pos (by simpa using hitem),
        ih hrest]

theorem resetScriptEnv_kept (h : s.Kept) : s.resetScriptEnv.Kept := by
  unfold LuaScriptInterface.Kept at h ⊢
  refine List.Perm.trans ?_ h
  have hsplit : (s.itemsOf s.scriptEnvIndex ++
      (s.tempItems.filter (·.1 ≠ s.scriptEnvIndex)).map (·.2)).Perm (s.tempItems.map (·.2)) := by
    unfold LuaScriptInterface.itemsOf
    rw [← List.map_append]
    refine List.Perm.map _ ?_
    simpa using List.filter_append_perm (fun t : ℤ × ℕ => decide (t.1 = s.scriptEnvIndex)) s.tempItems
  simp only [LuaScriptInterface.resetScriptEnv]
  rw [List.append_assoc, List.append_assoc, List.append_assoc]
  exact (hsplit.append_left _).append_left _

theorem step_kept (h : s.Kept) (e : Event) : (step s e).Kept := by
  cases e with
  | call call =>
    simp only [step, LuaScriptInterface.enter]
    split
    · split
      · exact @resetScriptEnv_kept { s with scriptEnvIndex := s.scriptEnvIndex + 1 } h
      · exact h
    · exact h
  | «return» =>
    simp only [step]
    split
    · exact h
    · exact resetScriptEnv_kept h
  | createItem =>
    simp only [step]
    split
    · exact h
    · unfold LuaScriptInterface.Kept at h ⊢
      simp only [List.map_append, List.map_cons, List.map_nil]
      rw [← List.append_assoc, List.range_succ]
      exact h.append_right _
  | placeItem item =>
    simp only [step]
    split
    · rename_i hmem
      unfold LuaScriptInterface.Kept at h ⊢
      have herase : (s.tempItems.eraseP (·.2 = item)).map (·.2) = (s.tempItems.map (·.2)).erase item := by
        rw [List.erase_eq_eraseP', List.eraseP_map]
        refine congrArg (List.map _) (congrArg (List.eraseP · _) (funext fun t => ?_))
        exact (Bool.beq_eq_decide_eq _ _).symm
      have hwaiting := List.perm_cons_erase hmem
      refine List.Perm.trans ?_ h
      simp only
      rw [herase, List.append_assoc, List.append_assoc, List.append_assoc]
      refine List.Perm.append_left _ (List.Perm.trans ?_ (hwaiting.symm.append_left _))
      exact (@List.perm_middle _ item s.released _).symm
    · exact h
  | storeQuery =>
    simp only [step]
    split <;> exact h
  | free id => exact h

/-! ## The environments -/

/-- Each script has the environment of its depth, with what its caller has set in it and
the items it has made. -/
def Owned (s : LuaScriptInterface) : List Frame → Prop
  | [] => True
  | f :: rest =>
    s.scriptEnv rest.length = f.call.set {} ∧ s.itemsOf rest.length = f.made ∧ Owned s rest

structure LuaScriptInterface.Tidy (s : LuaScriptInterface) : Prop where
  index : s.scriptEnvIndex = s.frames.length - 1
  owned : Owned s s.frames
  /-- the other environments are as they were made -/
  clean : ∀ k : ℤ, s.frames.length ≤ k → s.scriptEnv k = {} ∧ s.itemsOf k = []

theorem Owned.congr {s' : LuaScriptInterface} {frames : List Frame} (h : Owned s frames)
    (hsame : ∀ k : ℤ, 0 ≤ k → k < frames.length → s'.scriptEnv k = s.scriptEnv k ∧ s'.itemsOf k = s.itemsOf k) :
    Owned s' frames := by
  induction frames with
  | nil => trivial
  | cons f rest ih =>
    obtain ⟨henv, hitems, hrest⟩ := h
    rw [List.length_cons] at hsame
    obtain ⟨hsameEnv, hsameItems⟩ := hsame rest.length (by omega) (by omega)
    refine ⟨hsameEnv.trans henv, hsameItems.trans hitems, ih hrest fun k hk hlt => ?_⟩
    exact hsame k hk (by omega)

theorem itemsOf_filter (s : LuaScriptInterface) (item : ℕ) (k : ℤ) :
    LuaScriptInterface.itemsOf { s with tempItems := s.tempItems.filter (·.2 ≠ item) } k =
      (s.itemsOf k).filter (· ≠ item) := by
  unfold LuaScriptInterface.itemsOf
  rw [List.filter_map, List.filter_filter, List.filter_filter]
  exact congrArg (List.map _) (List.filter_congr fun t _ => Bool.and_comm _ _)

theorem Owned.without {frames : List Frame} (h : Owned s frames) (item : ℕ) :
    Owned { s with tempItems := s.tempItems.filter (·.2 ≠ item) } (frames.map (·.without item)) := by
  induction frames with
  | nil => trivial
  | cons f rest ih =>
    obtain ⟨henv, hitems, hrest⟩ := h
    refine ⟨?_, ?_, ih hrest⟩
    · rw [List.length_map]
      exact henv
    · rw [List.length_map, itemsOf_filter, hitems]
      rfl

theorem Owned.freed {frames : List Frame} (h : Owned s frames) (id : ℕ) : Owned s (frames.map (·.freed id)) := by
  induction frames with
  | nil => trivial
  | cons f rest ih =>
    obtain ⟨henv, hitems, hrest⟩ := h
    refine ⟨?_, ?_, ih hrest⟩
    · rw [List.length_map]
      exact henv
    · rw [List.length_map]
      exact hitems

theorem itemsOf_reset (s : LuaScriptInterface) {k : ℤ} (hk : k ≠ s.scriptEnvIndex) :
    s.resetScriptEnv.itemsOf k = s.itemsOf k := by
  unfold LuaScriptInterface.itemsOf LuaScriptInterface.resetScriptEnv
  simp only [List.filter_filter]
  refine congrArg (List.map _) (List.filter_congr fun t _ => ?_)
  by_cases ht : t.1 = k
  · simp [ht, hk]
  · simp [ht]

theorem itemsOf_reset_self (s : LuaScriptInterface) : s.resetScriptEnv.itemsOf s.scriptEnvIndex = [] := by
  unfold LuaScriptInterface.itemsOf LuaScriptInterface.resetScriptEnv
  simp [List.filter_filter]

theorem LuaScriptInterface.Tidy.return (h : s.Tidy) : (step s .return).Tidy := by
  simp only [step]
  split
  · exact h
  · rename_i f rest hframes
    have hindex := h.index
    have howned := h.owned
    have hclean := h.clean
    rw [hframes] at hindex howned hclean
    rw [List.length_cons] at hindex hclean
    have hself : s.scriptEnvIndex = rest.length := by omega
    refine ⟨?_, ?_, fun k hk => ?_⟩
    · simp only [LuaScriptInterface.resetScriptEnv]
      omega
    · refine howned.2.2.congr fun k _ hk => ⟨?_, itemsOf_reset s (by omega)⟩
      exact Function.update_of_ne (by omega) ..
    · by_cases hks : k = s.scriptEnvIndex
      · rw [hks]
        exact ⟨Function.update_self .., itemsOf_reset_self s⟩
      · have hother := hclean k (by simp only at hk; omega)
        exact ⟨(Function.update_of_ne hks ..).trans hother.1, (itemsOf_reset s hks).trans hother.2⟩

theorem LuaScriptInterface.Tidy.createItem (h : s.Tidy) : (step s .createItem).Tidy := by
  simp only [step]
  split
  · exact h
  · rename_i f rest hframes
    have hindex := h.index
    have howned := h.owned
    have hclean := h.clean
    rw [hframes] at hindex howned hclean
    rw [List.length_cons] at hindex hclean
    have hself : s.scriptEnvIndex = rest.length := by omega
    have hitems : ∀ k, LuaScriptInterface.itemsOf
        { s with tempItems := s.tempItems ++ [(s.scriptEnvIndex, s.created)] } k =
          s.itemsOf k ++ if s.scriptEnvIndex = k then [s.created] else [] := fun k => by
      unfold LuaScriptInterface.itemsOf
      rw [List.filter_append, List.map_append]
      by_cases hk : s.scriptEnvIndex = k <;> simp [hk]
    refine ⟨?_, ⟨howned.1, ?_, ?_⟩, fun k hk => ⟨?_, ?_⟩⟩
    · simp only [List.length_cons]
      omega
    · refine (hitems rest.length).trans ?_
      rw [if_pos hself, howned.2.1]
    · refine howned.2.2.congr fun k _ hk => ⟨rfl, (hitems k).trans ?_⟩
      rw [if_neg (by omega), List.append_nil]
    · exact (hclean k (by simpa using hk)).1
    · simp only [List.length_cons] at hk
      refine (hitems k).trans ?_
      rw [if_neg (by omega), List.append_nil]
      exact (hclean k (by omega)).2

theorem LuaScriptInterface.Tidy.placeItem (h : s.Tidy) (hkept : s.Kept) (item : ℕ) :
    (step s (.placeItem item)).Tidy := by
  simp only [step]
  split
  · rw [eraseP_eq_filter hkept.nodup]
    refine ⟨?_, ?_, fun k hk => ⟨?_, ?_⟩⟩
    · simp only [List.length_map]
      exact h.index
    · exact (h.owned.without item).congr fun _ _ _ => ⟨rfl, rfl⟩
    · exact (h.clean k (by simpa using hk)).1
    · have hitems := (h.clean k (by simpa using hk)).2
      refine (itemsOf_filter s item k).trans ?_
      rw [hitems]
      rfl
  · exact h

theorem LuaScriptInterface.Tidy.storeQuery (h : s.Tidy) : (step s .storeQuery).Tidy := by
  simp only [step]
  split
  · exact h
  · rename_i f rest hframes
    have howned := h.owned
    have hindex := h.index
    have hclean := h.clean
    rw [hframes] at howned hindex hclean
    exact ⟨hindex, ⟨howned.1, howned.2.1, howned.2.2.congr fun _ _ _ => ⟨rfl, rfl⟩⟩, hclean⟩

theorem LuaScriptInterface.Tidy.free (h : s.Tidy) (id : ℕ) : (step s (.free id)).Tidy := by
  refine ⟨?_, ?_, fun k hk => h.clean k ?_⟩
  · simp only [step, List.length_map]
    exact h.index
  · exact (h.owned.freed id).congr fun _ _ _ => ⟨rfl, rfl⟩
  · simpa [step] using hk

/-- A call keeps the order of the environments exactly if it finds one. -/
theorem enter_tidy_iff (h : s.Tidy) (call : Call) : (s.enter call).Tidy ↔ s.frames.length < 16 := by
  have hindex := h.index
  unfold LuaScriptInterface.enter
  dsimp only
  split
  · rename_i hroom
    refine ⟨fun _ => by omega, fun _ => ?_⟩
    have hnext : s.scriptEnvIndex + 1 = s.frames.length := by omega
    obtain ⟨henv, hitems⟩ := h.clean (s.scriptEnvIndex + 1) (by omega)
    rw [henv]
    -- a clean environment has no callback
    have hnests : call.nests {} = false := by cases call <;> rfl
    rw [hnests, if_neg Bool.false_ne_true]
    refine ⟨?_, ⟨?_, ?_, ?_⟩, fun k hk => ⟨?_, ?_⟩⟩
    · simp only [List.length_cons]
      omega
    · rw [← hnext]
      exact Function.update_self ..
    · rw [← hnext]
      exact hitems
    · refine h.owned.congr fun k _ hk => ⟨?_, rfl⟩
      exact Function.update_of_ne (by omega) ..
    · simp only [List.length_cons] at hk
      exact (Function.update_of_ne (by omega) ..).trans (h.clean k (by omega)).1
    · simp only [List.length_cons] at hk
      exact (h.clean k (by omega)).2
  · refine ⟨fun hafter => ?_, fun hroom => ?_⟩
    · have hindex' := hafter.index
      simp only at hindex'
      omega
    · omega

/-- A call that finds an environment. -/
def room (s : LuaScriptInterface) : Event → Prop
  | .call _ => s.frames.length < 16
  | _ => True

instance (s : LuaScriptInterface) (e : Event) : Decidable (room s e) := by
  cases e <;> unfold room <;> infer_instance

/-- Each script has the environment of its depth for itself, with its own items and
nobody else's, in every state of a run exactly if no call comes when sixteen scripts are
running. -/
theorem scripts_keep_their_own_iff (events : List Event) :
    (∀ pre, pre <+: events → (run step {} pre).Tidy) ↔ Along step room {} events := by
  refine @inv_reached_iff_of_legal _ _ step (fun _ _ => True) room LuaScriptInterface.Kept
    LuaScriptInterface.Tidy (fun s e h _ => step_kept h e) (fun s e hkept h _ => ?_) {} events
    (.refl _) ⟨rfl, trivial, fun _ _ => ⟨rfl, rfl⟩⟩ (Along.of_forall fun _ _ => trivial)
  cases e with
  | call call => exact enter_tidy_iff h call
  | «return» => exact ⟨fun _ => trivial, fun _ => h.return⟩
  | createItem => exact ⟨fun _ => trivial, fun _ => h.createItem⟩
  | placeItem item => exact ⟨fun _ => trivial, fun _ => h.placeItem hkept item⟩
  | storeQuery => exact ⟨fun _ => trivial, fun _ => h.storeQuery⟩
  | free id => exact ⟨fun _ => trivial, fun _ => h.free id⟩

/-! ## The results -/

/-- Every script finds the results that it has stored and not freed. -/
def Answered (s : LuaScriptInterface) : Prop :=
  ∀ f ∈ s.frames, ∀ r ∈ f.results, r ∈ s.tempResults

/-- No environment above the index is in use, also after refused calls. -/
def Above (s : LuaScriptInterface) : Prop := ∀ k, s.scriptEnvIndex < k → s.scriptEnv k = {}

theorem resetScriptEnv_above (h : Above s) : Above s.resetScriptEnv := by
  intro k hk
  simp only [LuaScriptInterface.resetScriptEnv] at hk ⊢
  by_cases hks : k = s.scriptEnvIndex
  · rw [hks, Function.update_self]
  · rw [Function.update_of_ne hks]
    exact h k (by omega)

theorem enter_of_above (h : Above s) (call : Call) : s.enter call = if s.scriptEnvIndex + 1 < 16 then
      { s with
        scriptEnvIndex := s.scriptEnvIndex + 1
        scriptEnv := Function.update s.scriptEnv (s.scriptEnvIndex + 1) (call.set {})
        frames := { call } :: s.frames }
    else { s with scriptEnvIndex := s.scriptEnvIndex + 1, refused := s.refused + 1 } := by
  have henv := h (s.scriptEnvIndex + 1) (by omega)
  have hnests : call.nests {} = false := by cases call <;> rfl
  unfold LuaScriptInterface.enter
  dsimp only
  rw [henv, hnests, if_neg Bool.false_ne_true]

theorem step_above (h : Above s) (e : Event) : Above (step s e) := by
  cases e with
  | call call =>
    change Above (s.enter call)
    rw [enter_of_above h]
    split
    · intro k hk
      simp only at hk ⊢
      rw [Function.update_of_ne (by omega)]
      exact h k (by omega)
    · intro k hk
      simp only at hk
      exact h k (by omega)
  | «return» =>
    simp only [step]
    split
    · exact h
    · exact resetScriptEnv_above h
  | createItem =>
    simp only [step]
    split <;> exact h
  | placeItem item =>
    simp only [step]
    split <;> exact h
  | storeQuery =>
    simp only [step]
    split <;> exact h
  | free id => exact h

/-- A script that ends while no script that waits for it has results. -/
def alone (s : LuaScriptInterface) : Event → Prop
  | .return => ∀ f ∈ s.frames.tail, f.results = []
  | _ => True

instance (s : LuaScriptInterface) (e : Event) : Decidable (alone s e) := by
  cases e <;> unfold alone <;> infer_instance

theorem step_answered_iff (habove : Above s) (h : Answered s) (e : Event) : Answered (step s e) ↔ alone s e := by
  cases e with
  | call call =>
    refine ⟨fun _ => trivial, fun _ => ?_⟩
    change Answered (s.enter call)
    rw [enter_of_above habove]
    split
    · intro f hf r hr
      obtain rfl | hf := List.mem_cons.mp hf
      · cases hr
      · exact h f hf r hr
    · exact h
  | «return» =>
    simp only [step, alone]
    cases hframes : s.frames with
    | nil => simp [Answered, hframes]
    | cons f rest =>
      simp only [Answered, LuaScriptInterface.resetScriptEnv, List.tail_cons, List.not_mem_nil]
      refine forall_congr' fun f => forall_congr' fun _ => ?_
      exact List.eq_nil_iff_forall_not_mem.symm
  | createItem =>
    refine ⟨fun _ => trivial, fun _ => ?_⟩
    simp only [step]
    split
    · exact h
    · rename_i f rest hframes
      unfold Answered at h ⊢
      rw [hframes] at h
      intro g hg
      obtain rfl | hg := List.mem_cons.mp hg
      · exact h f List.mem_cons_self
      · exact h g (List.mem_cons_of_mem f hg)
  | placeItem item =>
    refine ⟨fun _ => trivial, fun _ => ?_⟩
    simp only [step]
    split
    · intro g hg
      obtain ⟨f, hf, rfl⟩ := List.mem_map.mp hg
      exact h f hf
    · exact h
  | storeQuery =>
    refine ⟨fun _ => trivial, fun _ => ?_⟩
    simp only [step]
    split
    · exact h
    · rename_i f rest hframes
      unfold Answered at h ⊢
      rw [hframes] at h
      intro g hg r hr
      refine List.mem_append.mpr ?_
      obtain rfl | hg := List.mem_cons.mp hg
      · exact (List.mem_append.mp hr).imp_left (h f List.mem_cons_self r)
      · exact .inl (h g (List.mem_cons_of_mem f hg) r hr)
  | free id =>
    refine ⟨fun _ => trivial, fun _ => ?_⟩
    intro g hg r hr
    obtain ⟨f, hf, rfl⟩ := List.mem_map.mp hg
    obtain ⟨hr, hne⟩ := List.mem_filter.mp hr
    exact List.mem_filter.mpr ⟨h f hf r hr, hne⟩

/-- The table of results is emptied whenever a script ends: every script has its results
in every state of a run exactly if no script ends while another one has results. -/
theorem results_last_iff (events : List Event) :
    (∀ pre, pre <+: events → Answered (run step {} pre)) ↔ Along step alone {} events := by
  refine @inv_reached_iff_of_legal _ _ step (fun _ _ => True) alone Above Answered
    (fun s e h _ => step_above h e) (fun s e habove h _ => step_answered_iff habove h e) {} events
    (fun _ _ => rfl) (fun f hf => ?_) (Along.of_forall fun _ _ => trivial)
  cases hf

end ForgottenServer.Scripts.Environments
