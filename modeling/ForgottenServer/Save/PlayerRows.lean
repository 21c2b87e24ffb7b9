import ForgottenServer.Save.PlayerItems
import Mathlib.Data.List.Forall2
import Mathlib.Data.List.Nodup
import Mathlib.Data.List.Range

/-! # The rows of player items

The rows of `saveItems` are numbered from 101 on, the items of one container in a row
and after the container. What is queued has no rows under its id yet, so that the rows
under an id are the items of one container, in their order. -/
namespace ForgottenServer.Save.Player
open ForgottenServer.Lib.Wire

variable {sv : Server}

section
variable (sv)

/-- The rows of some items under their parents, with the ids behind `n`. -/
def numbered : ℕ → List (ℕ × Tree) → List Row
  | _, [] => []
  | n, (pid, t) :: l => row sv pid (n + 1) t.item :: numbered (n + 1) l

/-- The containers among them, with their ids. -/
def queued : ℕ → List (ℕ × Tree) → List (Tree × ℕ)
  | _, [] => []
  | n, (_, t) :: l =>
    if (t.item.classOf sv).isContainer then (t, n + 1) :: queued (n + 1) l else queued (n + 1) l

end

theorem addRows_eq (l : List (ℕ × Tree)) (st : Saver) : l.foldl (fun st (pid, t) => Saver.addRow sv pid st t) st =
      { runningId := st.runningId + l.length, queue := st.queue ++ queued sv st.runningId l,
        rows := st.rows ++ numbered sv st.runningId l } := by
  induction l generalizing st with
  | nil => simp [queued, numbered]
  | cons e l ih =>
    obtain ⟨pid, t⟩ := e
    rw [List.foldl_cons, ih]
    simp only [Saver.addRow, queued, numbered, List.length_cons]
    split_ifs
    · simp [Nat.add_assoc, Nat.add_comm 1]
    · simp [Nat.add_assoc, Nat.add_comm 1]

/-- The state behind the items of one container. -/
def Saver.expand (sv : Server) (st : Saver) (id : ℕ) (l : List Tree) : Saver where
  runningId := st.runningId + l.length
  queue := st.queue ++ queued sv st.runningId (l.map fun t => (id, t))
  rows := st.rows ++ numbered sv st.runningId (l.map fun t => (id, t))

theorem addChildren_eq (id : ℕ) (l : List Tree) (st : Saver) :
    l.foldl (Saver.addRow sv id) st = st.expand sv id l := by
  have h : (l.map fun t => (id, t)).foldl (fun st (pid, t) => Saver.addRow sv pid st t) st = _ :=
    addRows_eq _ st
  rw [List.foldl_map, List.length_map] at h
  exact h

theorem numbered_sid (n : ℕ) (l : List (ℕ × Tree)) : (numbered sv n l).map Row.sid = List.range' (n + 1) l.length := by
  induction l generalizing n with
  | nil => rfl
  | cons e l ih =>
    rw [numbered, List.map_cons, ih, List.length_cons, List.range'_succ]
    rfl

theorem numbered_pid (n : ℕ) (l : List (ℕ × Tree)) : (numbered sv n l).map Row.pid = l.map Prod.fst := by
  induction l generalizing n with
  | nil => rfl
  | cons e l ih =>
    rw [numbered, List.map_cons, ih, List.map_cons]
    rfl

theorem queued_sublist (n : ℕ) (l : List (ℕ × Tree)) :
    ((queued sv n l).map Prod.snd).Sublist (List.range' (n + 1) l.length) := by
  induction l generalizing n with
  | nil => exact .slnil
  | cons e l ih =>
    rw [queued, List.length_cons, List.range'_succ]
    split_ifs
    · exact (ih (n + 1)).cons_cons _
    · exact (ih (n + 1)).cons _

theorem queued_bound {n i : ℕ} {l : List (ℕ × Tree)} (h : i ∈ (queued sv n l).map Prod.snd) :
    n < i ∧ i ≤ n + l.length := by
  have hmem := (queued_sublist n l).subset h
  rw [List.mem_range'_1] at hmem
  omega

theorem queued_nodup (n : ℕ) (l : List (ℕ × Tree)) : ((queued sv n l).map Prod.snd).Nodup :=
  (List.nodup_range' ..).sublist (queued_sublist n l)

/-- Items as the game has them: their types are known, and only containers hold others. -/
inductive Sound (sv : Server) : Tree → Prop
  | node {x : Item} {l : List Tree} (known : (sv.items x.id).group ≠ .deprecated ∧ (sv.items x.id).id ≠ 0)
    (leaf : (x.classOf sv).isContainer = false → l = []) (children : ∀ t ∈ l, Sound sv t) : Sound sv (.node x l)

theorem Sound.known {t : Tree} (h : Sound sv t) :
    (sv.items t.item.id).group ≠ .deprecated ∧ (sv.items t.item.id).id ≠ 0 := by
  cases h with
  | node hknown => exact hknown

theorem Sound.child {t : Tree} (h : Sound sv t) : ∀ u ∈ t.children, Sound sv u := by
  cases h with
  | node _ _ hchildren => exact hchildren

theorem Sound.leaf {t : Tree} (h : Sound sv t) (hc : (t.item.classOf sv).isContainer = false) : t.children = [] := by
  cases h with
  | node _ hleaf => exact hleaf hc

def children (rows : List Row) (id : ℕ) : List ℕ := (rows.filter fun r => r.pid = id).map Row.sid

/-- The rows have a tree under an id. -/
inductive Written (sv : Server) (rows : List Row) : ℕ → Tree → Prop
  | node {pid id : ℕ} {x : Item} {l : List Tree} (item : row sv pid id x ∈ rows)
    (children : List.Forall₂ (Written sv rows) (children rows id) l) : Written sv rows id (.node x l)

/-- The ids that are queued have no rows under them yet. -/
structure Saver.Inv (st : Saver) : Prop where
  start : 100 ≤ st.runningId
  sids : st.rows.map Row.sid = List.range' 101 (st.runningId - 100)
  pids : ∀ r ∈ st.rows, r.pid < r.sid
  fresh : ∀ r ∈ st.rows, r.pid ∉ st.queue.map Prod.snd
  nodup : (st.queue.map Prod.snd).Nodup
  bound : ∀ i ∈ st.queue.map Prod.snd, i ≤ st.runningId

theorem Saver.Inv.sid_le {st : Saver} (h : st.Inv) {r : Row} (hr : r ∈ st.rows) : r.sid ≤ st.runningId := by
  have hmem : r.sid ∈ st.rows.map Row.sid := List.mem_map_of_mem hr
  have hstart := h.start
  rw [h.sids, List.mem_range'_1] at hmem
  omega

theorem mem_numbered {n : ℕ} {l : List (ℕ × Tree)} {r : Row} (h : r ∈ numbered sv n l) :
    (n < r.sid ∧ r.sid ≤ n + l.length) ∧ r.pid ∈ l.map Prod.fst := by
  have hsid : r.sid ∈ (numbered sv n l).map Row.sid := List.mem_map_of_mem h
  have hpid : r.pid ∈ (numbered sv n l).map Row.pid := List.mem_map_of_mem h
  rw [numbered_sid, List.mem_range'_1] at hsid
  rw [numbered_pid] at hpid
  exact ⟨by omega, hpid⟩

theorem Saver.Inv.addRows {st : Saver} (h : st.Inv) {l : List (ℕ × Tree)}
    (hl : ∀ e ∈ l, e.1 ≤ st.runningId) (hqueue : ∀ e ∈ l, e.1 ∉ st.queue.map Prod.snd) :
    Saver.Inv
      { runningId := st.runningId + l.length, queue := st.queue ++ queued sv st.runningId l,
        rows := st.rows ++ numbered sv st.runningId l } := by
  have hstart := h.start
  have hparent : ∀ r ∈ numbered sv st.runningId l, r.pid ≤ st.runningId ∧ r.pid ∉ st.queue.map Prod.snd := by
    intro r hr
    obtain ⟨e, he, hpid⟩ := List.mem_map.mp (mem_numbered hr).2
    rw [← hpid]
    exact ⟨hl e he, hqueue e he⟩
  refine ⟨by simp only; omega, ?_, fun r hr => ?_, fun r hr => ?_, ?_, fun i hi => ?_⟩
  · have hrange : st.runningId + l.length - 100 = (st.runningId - 100) + l.length := by omega
    have hnext : st.runningId + 1 = 101 + (st.runningId - 100) := by omega
    simp only [List.map_append, h.sids, numbered_sid, hrange, hnext]
    rw [List.range'_append_1]
  · rcases List.mem_append.mp hr with hr | hr
    · exact h.pids r hr
    · have := hparent r hr
      have := mem_numbered hr
      omega
  · rw [List.map_append, List.mem_append, not_or]
    rcases List.mem_append.mp hr with hr | hr
    · refine ⟨h.fresh r hr, fun hmem => ?_⟩
      have := queued_bound hmem
      have := h.pids r hr
      have := h.sid_le hr
      omega
    · refine ⟨(hparent r hr).2, fun hmem => ?_⟩
      have := queued_bound hmem
      have := hparent r hr
      omega
  · rw [List.map_append, List.nodup_append]
    refine ⟨h.nodup, queued_nodup _ _, fun i hi j hj => ?_⟩
    have := h.bound i hi
    have := queued_bound hj
    omega
  · rw [List.map_append, List.mem_append] at hi
    rcases hi with hi | hi
    · have := h.bound i hi
      simp only
      omega
    · exact (queued_bound hi).2

theorem children_append (rows rows' : List Row) (id : ℕ) :
    children (rows ++ rows') id = children rows id ++ children rows' id := by
  rw [children, List.filter_append, List.map_append, children, children]

theorem children_eq_nil {rows : List Row} {id : ℕ} (h : ∀ r ∈ rows, r.pid ≠ id) : children rows id = [] := by
  rw [children, List.map_eq_nil_iff, List.filter_eq_nil_iff]
  intro r hr
  simpa using h r hr

theorem children_numbered (id n : ℕ) (l : List Tree) :
    children (numbered sv n (l.map fun t => (id, t))) id = List.range' (n + 1) l.length := by
  have hall : (numbered sv n (l.map fun t => (id, t))).filter (fun r => r.pid = id) =
      numbered sv n (l.map fun t => (id, t)) := by
    rw [List.filter_eq_self]
    intro r hr
    have hpid := (mem_numbered hr).2
    rw [List.map_map, List.mem_map] at hpid
    obtain ⟨t, -, hpid⟩ := hpid
    exact decide_eq_true hpid.symm
  rw [children, hall, numbered_sid, List.length_map]

theorem written_range {rows : List Row} {id n : ℕ} {l : List Tree} (hsound : ∀ t ∈ l, Sound sv t)
    (hrows : ∀ r ∈ numbered sv n (l.map fun t => (id, t)), r ∈ rows)
    (hqueued : ∀ e ∈ queued sv n (l.map fun t => (id, t)),
      List.Forall₂ (Written sv rows) (children rows e.2) e.1.children)
    (hleaf : ∀ i, n < i → i ≤ n + l.length → i ∉ (queued sv n (l.map fun t => (id, t))).map Prod.snd →
      children rows i = []) :
    List.Forall₂ (Written sv rows) (List.range' (n + 1) l.length) l := by
  induction l generalizing n with
  | nil => exact .nil
  | cons t l ih =>
    have hhead : row sv id (n + 1) t.item ∈ rows :=
      hrows _ (by rw [List.map_cons, numbered]; exact List.mem_cons_self ..)
    have hbehind : n + 1 ∉ (queued sv (n + 1) (l.map fun t => (id, t))).map Prod.snd :=
      fun hmem => by
      have := queued_bound hmem
      omega
    rw [List.length_cons, List.range'_succ]
    rw [List.map_cons, queued] at hqueued hleaf
    rw [List.map_cons, numbered] at hrows
    have hbelow : List.Forall₂ (Written sv rows) (children rows (n + 1)) t.children := by
      by_cases hc : (t.item.classOf sv).isContainer = true
      · rw [if_pos hc] at hqueued
        exact hqueued (t, n + 1) (List.mem_cons_self ..)
      · rw [if_neg hc] at hleaf
        rw [hleaf (n + 1) (by omega) (by simp) hbehind,
          (hsound t (by simp)).leaf (by simpa using hc)]
        exact .nil
    refine .cons ?_ (ih (fun u hu => hsound u (List.mem_cons_of_mem t hu))
      (fun r hr => hrows r (List.mem_cons_of_mem _ hr)) (fun e he => hqueued e ?_)
        fun i hi hle hnot => hleaf i ?_ ?_ ?_)
    · obtain ⟨x, m⟩ := t
      exact .node hhead hbelow
    · split_ifs
      · exact List.mem_cons_of_mem _ he
      · exact he
    · omega
    · rw [List.length_cons]
      omega
    · split_ifs
      · rw [List.map_cons, List.mem_cons, not_or]
        exact ⟨by simp only; omega, hnot⟩
      · exact hnot

theorem mem_queued {n : ℕ} {l : List (ℕ × Tree)} {e : Tree × ℕ} (h : e ∈ queued sv n l) : ∃ pid, (pid, e.1) ∈ l := by
  induction l generalizing n with
  | nil => cases h
  | cons a l ih =>
    rw [queued] at h
    split_ifs at h
    · rcases List.mem_cons.mp h with rfl | h
      · exact ⟨a.1, List.mem_cons_self ..⟩
      · obtain ⟨pid, hmem⟩ := ih h
        exact ⟨pid, List.mem_cons_of_mem a hmem⟩
    · obtain ⟨pid, hmem⟩ := ih h
      exact ⟨pid, List.mem_cons_of_mem a hmem⟩

/-- What the loop over the queue has written when it ends. The new rows are under ids that
were queued or come later. -/
structure Saver.Done (sv : Server) (st fin : Saver) : Prop where
  inv : fin.Inv
  rows : ∃ extra, fin.rows = st.rows ++ extra ∧ ∀ r ∈ extra, r.pid ∈ st.queue.map Prod.snd ∨ st.runningId < r.pid
  written : ∀ e ∈ st.queue, List.Forall₂ (Written sv fin.rows) (children fin.rows e.2) e.1.children

theorem run_cons {st : Saver} {t : Tree} {id : ℕ} {queue : List (Tree × ℕ)} (h : st.queue = (t, id) :: queue) :
    st.run sv = (Saver.expand sv { st with queue } id t.children).run sv := by
  rw [← addChildren_eq, Saver.run]
  split
  · rename_i hnil
    rw [h] at hnil
    cases hnil
  · rename_i t' id' queue' hcons
    rw [h] at hcons
    cases hcons
    rfl

theorem Saver.Inv.pop {st : Saver} (h : st.Inv) {e : Tree × ℕ} {queue : List (Tree × ℕ)}
    (hqueue : st.queue = e :: queue) : Saver.Inv { st with queue } := by
  have hmem : ∀ i ∈ queue.map Prod.snd, i ∈ st.queue.map Prod.snd := fun i hi => by
    rw [hqueue, List.map_cons]
    exact List.mem_cons_of_mem _ hi
  have hnodup := h.nodup
  rw [hqueue, List.map_cons] at hnodup
  exact ⟨h.start, h.sids, h.pids, fun r hr hi => h.fresh r hr (hmem _ hi), hnodup.of_cons,
    fun i hi => h.bound i (hmem i hi)⟩

theorem Saver.Inv.expand {st : Saver} (h : st.Inv) {id : ℕ} (hid : id ≤ st.runningId)
    (hqueue : id ∉ st.queue.map Prod.snd) (l : List Tree) : (st.expand sv id l).Inv := by
  have hone : ∀ e ∈ l.map fun t => (id, t), e.1 = id := by
    intro e he
    obtain ⟨u, -, rfl⟩ := List.mem_map.mp he
    rfl
  have hinv : Saver.Inv
      { runningId := st.runningId + (l.map fun t => (id, t)).length,
        queue := st.queue ++ queued sv st.runningId (l.map fun t => (id, t)),
        rows := st.rows ++ numbered sv st.runningId (l.map fun t => (id, t)) } :=
    h.addRows (fun e he => by rw [hone e he]; exact hid) fun e he => by rw [hone e he]; exact hqueue
  rw [List.length_map] at hinv
  exact hinv

theorem Saver.Done.cons {st fin : Saver} (h : st.Inv) {t : Tree} {id : ℕ} {queue : List (Tree × ℕ)}
    (hqueue : st.queue = (t, id) :: queue) (hsound : Sound sv t)
    (hdone : Saver.Done sv (Saver.expand sv { st with queue } id t.children) fin) : st.Done sv fin := by
  obtain ⟨extra, hrows, hextra⟩ := hdone.rows
  have hid : id ≤ st.runningId := h.bound id (by rw [hqueue]; simp)
  have hidqueue : id ∉ queue.map Prod.snd := by
    have hnodup := h.nodup
    rw [hqueue, List.map_cons] at hnodup
    exact hnodup.notMem
  have hold : ∀ r ∈ st.rows, r.pid ≠ id :=
    fun r hr hpid => h.fresh r hr (by rw [hqueue, hpid]; simp)
  simp only [Saver.expand, List.append_assoc, List.map_append, List.mem_append] at hrows hextra
  -- the rows of the items of `t` are all the rows under its id
  have hchildren : children fin.rows id = List.range' (st.runningId + 1) t.children.length := by
    have hlater : ∀ r ∈ extra, r.pid ≠ id := by
      intro r hr hpid
      rcases hextra r hr with (hmem | hmem) | hlt
      · exact hidqueue (hpid ▸ hmem)
      · have := queued_bound hmem
        omega
      · omega
    rw [hrows, children_append, children_append, children_eq_nil hold, children_numbered,
      children_eq_nil hlater, List.nil_append, List.append_nil]
  have hwritten : ∀ e ∈ queue ++ queued sv st.runningId (t.children.map fun t => (id, t)),
      List.Forall₂ (Written sv fin.rows) (children fin.rows e.2) e.1.children := hdone.written
  have hfront : List.Forall₂ (Written sv fin.rows) (children fin.rows id) t.children := by
    rw [hchildren]
    refine written_range hsound.child (fun r hr => ?_) (fun e he => hwritten e (List.mem_append_right _ he))
      fun i hi hle hnot => ?_
    · rw [hrows]
      exact List.mem_append_right _ (List.mem_append_left _ hr)
    · -- an item that is no container is the parent of none
      rw [hrows]
      refine children_eq_nil fun r hr hpid => ?_
      rcases List.mem_append.mp hr with hr | hr
      · have := h.pids r hr
        have := h.sid_le hr
        omega
      · rcases List.mem_append.mp hr with hr | hr
        · have hone := (mem_numbered hr).2
          rw [List.map_map, List.mem_map] at hone
          obtain ⟨u, -, hone⟩ := hone
          simp only [Function.comp_apply] at hone
          omega
        · rcases hextra r hr with (hmem | hmem) | hlt
          · have := h.bound r.pid (by rw [hqueue, List.map_cons]; exact List.mem_cons_of_mem _ hmem)
            omega
          · exact hnot (hpid ▸ hmem)
          · omega
  refine ⟨hdone.inv, ⟨_, hrows, fun r hr => ?_⟩, fun e he => ?_⟩
  · rw [hqueue, List.map_cons, List.mem_cons]
    rcases List.mem_append.mp hr with hr | hr
    · have hone := (mem_numbered hr).2
      rw [List.map_map, List.mem_map] at hone
      obtain ⟨u, -, hone⟩ := hone
      exact .inl (.inl hone.symm)
    · rcases hextra r hr with (hmem | hmem) | hlt
      · exact .inl (.inr hmem)
      · exact .inr (queued_bound hmem).1
      · exact .inr (by omega)
  · rw [hqueue] at he
    rcases List.mem_cons.mp he with rfl | he
    · exact hfront
    · exact hwritten e (List.mem_append_left _ he)

theorem run_done {st : Saver} (h : st.Inv) (hsound : ∀ e ∈ st.queue, Sound sv e.1) : st.Done sv (st.run sv) := by
  induction st using Saver.run.induct sv with
  | case1 st hqueue =>
    rw [Saver.run, hqueue]
    refine ⟨h, ⟨[], by simp, by simp⟩, fun e he => ?_⟩
    rw [hqueue] at he
    cases he
  | case2 st t id queue hqueue ih =>
    have hid : id ≤ st.runningId := h.bound id (by rw [hqueue]; simp)
    have hidqueue : id ∉ queue.map Prod.snd := by
      have hnodup := h.nodup
      rw [hqueue, List.map_cons] at hnodup
      exact hnodup.notMem
    have hsound' : Sound sv t := hsound (t, id) (by rw [hqueue]; exact List.mem_cons_self ..)
    rw [addChildren_eq] at ih
    rw [run_cons hqueue]
    refine Saver.Done.cons h hqueue hsound' (ih ((h.pop hqueue).expand hid hidqueue _) fun e he => ?_)
    rcases List.mem_append.mp he with he | he
    · exact hsound e (by rw [hqueue]; exact List.mem_cons_of_mem _ he)
    · obtain ⟨pid, hmem⟩ := mem_queued he
      obtain ⟨u, hu, heq⟩ := List.mem_map.mp hmem
      cases heq
      exact hsound'.child _ hu

/-- Every row is of an item of a known type, and is under a root or a container. -/
structure Saver.Rooted (sv : Server) (roots : List ℕ) (st : Saver) : Prop where
  items : ∀ r ∈ st.rows, ∃ x, r = row sv r.pid r.sid x ∧ (sv.items x.id).group ≠ .deprecated ∧ (sv.items x.id).id ≠ 0
  parents : ∀ r ∈ st.rows, r.pid ∈ roots ∨ ∃ pid x, row sv pid r.pid x ∈ st.rows ∧ (x.classOf sv).isContainer = true
  queue : ∀ e ∈ st.queue, Sound sv e.1 ∧ ∃ pid, row sv pid e.2 e.1.item ∈ st.rows ∧
    (e.1.item.classOf sv).isContainer = true

theorem numbered_items {n : ℕ} {l : List (ℕ × Tree)} (hsound : ∀ e ∈ l, Sound sv e.2) {r : Row}
    (hr : r ∈ numbered sv n l) :
    ∃ x, r = row sv r.pid r.sid x ∧ (sv.items x.id).group ≠ .deprecated ∧ (sv.items x.id).id ≠ 0 := by
  induction l generalizing n with
  | nil => cases hr
  | cons e l ih =>
    rw [numbered] at hr
    rcases List.mem_cons.mp hr with rfl | hr
    · exact ⟨e.2.item, rfl, (hsound e (by simp)).known⟩
    · exact ih (fun a ha => hsound a (List.mem_cons_of_mem e ha)) hr

theorem queued_rows {n : ℕ} {l : List (ℕ × Tree)} {e : Tree × ℕ} (h : e ∈ queued sv n l) :
    ∃ pid, row sv pid e.2 e.1.item ∈ numbered sv n l ∧ (e.1.item.classOf sv).isContainer = true := by
  induction l generalizing n with
  | nil => cases h
  | cons a l ih =>
    rw [queued] at h
    rw [numbered]
    split_ifs at h with hc
    · rcases List.mem_cons.mp h with rfl | h
      · exact ⟨a.1, List.mem_cons_self .., hc⟩
      · obtain ⟨pid, hmem, hcontainer⟩ := ih h
        exact ⟨pid, List.mem_cons_of_mem _ hmem, hcontainer⟩
    · obtain ⟨pid, hmem, hcontainer⟩ := ih h
      exact ⟨pid, List.mem_cons_of_mem _ hmem, hcontainer⟩

theorem Saver.Rooted.addRows {roots : List ℕ} {st : Saver} (h : st.Rooted sv roots) {l : List (ℕ × Tree)}
    (hsound : ∀ e ∈ l, Sound sv e.2)
    (hparent : ∀ e ∈ l, e.1 ∈ roots ∨ ∃ pid x, row sv pid e.1 x ∈ st.rows ∧ (x.classOf sv).isContainer = true)
    (k : ℕ) :
    Saver.Rooted sv roots
      { runningId := k, queue := st.queue ++ queued sv st.runningId l,
        rows := st.rows ++ numbered sv st.runningId l } := by
  have hlift : ∀ i, (i ∈ roots ∨ ∃ pid x, row sv pid i x ∈ st.rows ∧ (x.classOf sv).isContainer = true) →
      i ∈ roots ∨ ∃ pid x, row sv pid i x ∈ st.rows ++ numbered sv st.runningId l ∧
        (x.classOf sv).isContainer = true := by
    rintro i (hi | ⟨pid, x, hmem, hc⟩)
    · exact .inl hi
    · exact .inr ⟨pid, x, List.mem_append_left _ hmem, hc⟩
  refine ⟨fun r hr => ?_, fun r hr => hlift r.pid ?_, fun e he => ?_⟩
  · rcases List.mem_append.mp hr with hr | hr
    · exact h.items r hr
    · exact numbered_items hsound hr
  · rcases List.mem_append.mp hr with hr | hr
    · exact h.parents r hr
    · obtain ⟨e, he, hpid⟩ := List.mem_map.mp (mem_numbered hr).2
      rw [← hpid]
      exact hparent e he
  · rcases List.mem_append.mp he with he | he
    · obtain ⟨hsound, pid, hmem, hc⟩ := h.queue e he
      exact ⟨hsound, pid, List.mem_append_left _ hmem, hc⟩
    · obtain ⟨pid, hmem, hc⟩ := queued_rows he
      obtain ⟨parent, hpair⟩ := mem_queued he
      exact ⟨hsound _ hpair, pid, List.mem_append_right _ hmem, hc⟩

theorem run_rooted {roots : List ℕ} {st : Saver} (h : st.Rooted sv roots) : (st.run sv).Rooted sv roots := by
  induction st using Saver.run.induct sv with
  | case1 st hqueue =>
    rw [Saver.run, hqueue]
    exact h
  | case2 st t id queue hqueue ih =>
    rw [addChildren_eq] at ih
    rw [run_cons hqueue]
    obtain ⟨hsound, pid, hmem, hc⟩ := h.queue (t, id) (by rw [hqueue]; exact List.mem_cons_self ..)
    have hpop : Saver.Rooted sv roots { st with queue } :=
      ⟨h.items, h.parents, fun e he => h.queue e (by rw [hqueue]; exact List.mem_cons_of_mem _ he)⟩
    refine ih (hpop.addRows (fun e he => ?_) (fun e he => ?_) _)
    · obtain ⟨u, hu, rfl⟩ := List.mem_map.mp he
      exact hsound.child u hu
    · obtain ⟨u, -, rfl⟩ := List.mem_map.mp he
      exact .inr ⟨pid, t.item, hmem, hc⟩

theorem numbered_root {n : ℕ} {l : List (ℕ × Tree)} (hnodup : (l.map Prod.fst).Nodup)
    {slot : ℕ} {t : Tree} (h : (slot, t) ∈ l) :
    ∃ id, children (numbered sv n l) slot = [id] ∧ row sv slot id t.item ∈ numbered sv n l ∧
      (n < id ∧ id ≤ n + l.length) ∧
      if (t.item.classOf sv).isContainer then (t, id) ∈ queued sv n l
        else id ∉ (queued sv n l).map Prod.snd := by
  induction l generalizing n with
  | nil => cases h
  | cons e l ih =>
    rw [List.map_cons, List.nodup_cons] at hnodup
    obtain ⟨hhead, htail⟩ := hnodup
    rw [numbered, queued]
    rcases List.mem_cons.mp h with rfl | h
    · have hrest : children (numbered sv (n + 1) l) slot = [] :=
        children_eq_nil fun r hr hpid => hhead (hpid ▸ (mem_numbered hr).2)
      refine ⟨n + 1, ?_, List.mem_cons_self .., by simp, ?_⟩
      · rw [children] at hrest ⊢
        simp only [List.map_eq_nil_iff] at hrest
        simp [row, hrest]
      · split_ifs
        · exact List.mem_cons_self ..
        · intro hmem
          have := queued_bound hmem
          omega
    · obtain ⟨id, hchildren, hrow, hbound, hqueue⟩ := ih htail h
      have hne : e.1 ≠ slot := fun heq => hhead (heq ▸ List.mem_map_of_mem h)
      refine ⟨id, ?_, List.mem_cons_of_mem _ hrow, by rw [List.length_cons]; omega, ?_⟩
      · rw [← hchildren, children, children, List.filter_cons_of_neg (by simp [row, hne])]
      · split_ifs at hqueue ⊢
        · exact List.mem_cons_of_mem _ hqueue
        · exact hqueue
        · rw [List.map_cons, List.mem_cons, not_or]
          exact ⟨by simp only; omega, hqueue⟩
        · exact hqueue

/-- What `saveItems` writes of a forest under distinct small ids. -/
structure Saves (sv : Server) (blocks : List (ℕ × Tree)) (rows : List Row) : Prop where
  sids : ∃ k, rows.map Row.sid = List.range' 101 k
  pids : ∀ r ∈ rows, r.pid < r.sid
  items : ∀ r ∈ rows, ∃ x, r = row sv r.pid r.sid x ∧ (sv.items x.id).group ≠ .deprecated ∧ (sv.items x.id).id ≠ 0
  parents : ∀ r ∈ rows, r.pid ∈ blocks.map Prod.fst ∨
    ∃ pid x, row sv pid r.pid x ∈ rows ∧ (x.classOf sv).isContainer = true
  roots : ∀ e ∈ blocks, ∃ id, children rows e.1 = [id] ∧ Written sv rows id e.2
  others : ∀ slot ≤ 100, slot ∉ blocks.map Prod.fst → children rows slot = []

/-- The state behind the first loop. -/
def Saver.roots (sv : Server) (blocks : List (ℕ × Tree)) : Saver where
  runningId := 100 + blocks.length
  queue := queued sv 100 blocks
  rows := numbered sv 100 blocks

theorem saveItems_eq (blocks : List (ℕ × Tree)) : saveItems sv blocks = ((Saver.roots sv blocks).run sv).rows := by
  rw [saveItems, addRows_eq]
  rfl

theorem Saver.Done.roots_written {blocks : List (ℕ × Tree)} {fin : Saver}
    (hslots : ∀ e ∈ blocks, e.1 ≤ 100) (hsound : ∀ e ∈ blocks, Sound sv e.2)
    (hnodup : (blocks.map Prod.fst).Nodup) (hdone : (Saver.roots sv blocks).Done sv fin) :
    (∀ e ∈ blocks, ∃ id, children fin.rows e.1 = [id] ∧ Written sv fin.rows id e.2) ∧
      ∀ slot ≤ 100, slot ∉ blocks.map Prod.fst → children fin.rows slot = [] := by
  obtain ⟨extra, hrows, hextra⟩ := hdone.rows
  simp only [Saver.roots] at hrows hextra
  -- behind the first loop nothing is written under a small id
  have hlater : ∀ slot ≤ 100, children extra slot = [] := by
    refine fun slot hslot => children_eq_nil fun r hr hpid => ?_
    rcases hextra r hr with hmem | hlt
    · have := queued_bound hmem
      omega
    · omega
  refine ⟨fun e he => ?_, fun slot hslot hnot => ?_⟩
  · obtain ⟨slot, t⟩ := e
    obtain ⟨id, hchildren, hrow, hbound, hqueue⟩ : ∃ id, children (numbered sv 100 blocks) slot = [id] ∧ _ :=
      numbered_root hnodup he
    refine ⟨id, ?_, ?_⟩
    · rw [hrows, children_append, hchildren, hlater slot (hslots _ he), List.append_nil]
    · have hbelow : List.Forall₂ (Written sv fin.rows) (children fin.rows id) t.children := by
        split_ifs at hqueue with hc
        · exact hdone.written (t, id) hqueue
        · have hnone : children fin.rows id = [] := by
            rw [hrows]
            refine children_eq_nil fun r hr hpid => ?_
            rcases List.mem_append.mp hr with hr | hr
            · obtain ⟨e, he, hslot⟩ := List.mem_map.mp (mem_numbered hr).2
              have := hslots e he
              omega
            · rcases hextra r hr with hmem | hlt
              · exact hqueue (hpid ▸ hmem)
              · omega
          rw [hnone, (hsound _ he).leaf (by simpa using hc)]
          exact .nil
      have hmem : row sv slot id t.item ∈ fin.rows := by
        rw [hrows]
        exact List.mem_append_left _ hrow
      obtain ⟨x, l⟩ := t
      exact .node hmem hbelow
  · rw [hrows, children_append, hlater slot hslot, List.append_nil]
    exact children_eq_nil fun r hr hpid => hnot (hpid ▸ (mem_numbered hr).2)

theorem saveItems_saves {blocks : List (ℕ × Tree)} (hnodup : (blocks.map Prod.fst).Nodup)
    (hslots : ∀ e ∈ blocks, e.1 ≤ 100) (hsound : ∀ e ∈ blocks, Sound sv e.2) :
    Saves sv blocks (saveItems sv blocks) := by
  have hempty : Saver.Inv {} := ⟨le_rfl, rfl, by simp, by simp, by simp, by simp⟩
  have hempty' : Saver.Rooted sv (blocks.map Prod.fst) {} := ⟨by simp, by simp, by simp⟩
  have hinv : (Saver.roots sv blocks).Inv := hempty.addRows hslots (by simp)
  have hrooted : (Saver.roots sv blocks).Rooted sv (blocks.map Prod.fst) :=
    hempty'.addRows hsound (fun e he => .inl (List.mem_map_of_mem he)) _
  have hdone := run_done hinv fun e he => (hrooted.queue e he).1
  obtain ⟨hroots, hothers⟩ := hdone.roots_written hslots hsound hnodup
  rw [saveItems_eq]
  exact ⟨⟨_, hdone.inv.sids⟩, hdone.inv.pids, (run_rooted hrooted).items,
    (run_rooted hrooted).parents, hroots, hothers⟩

end ForgottenServer.Save.Player
