import ForgottenServer.Lib.Forest
import Mathlib.Data.Finset.Card
import Mathlib.Data.List.Nodup

/-! # Walks through a forest

A queue of things is worked off from the front, and what is in a thing joins the
queue at the back. Where every thing lies at one place, the walk meets all that
is below its start, and nothing twice. -/
namespace ForgottenServer.Lib.Traversal
open ForgottenServer.Lib.Forest

section Visits
variable {α : Type*} (inside : α → List α) (enters : α → Bool)

/-- The things that are walked through, in their order. -/
def visits : ℕ → List α → List α
  | 0, _ => []
  | _, [] => []
  | fuel + 1, x :: queue => x :: visits fuel (queue ++ (inside x).filter enters)

end Visits

variable {C α : Type*} {inner : α → C} {child : C → α → Prop} {S : Set C} {start : List α}
  {inside : α → List α} {enters : α → Bool}

/-- The lists name what lies at the places, and things with something in them are entered. -/
structure Listed (inner : α → C) (child : C → α → Prop) (S : Set C) (start : List α)
    (inside : α → List α) (enters : α → Bool) : Prop where
  mem_start : ∀ x, x ∈ start ↔ ∃ c ∈ S, child c x
  mem_inside : ∀ x y, y ∈ inside x ↔ child (inner x) y
  entered : ∀ x y, y ∈ inside x → enters x = true
  one : ∀ c c' x, child c x → child c' x → c = c'
  injective : Function.Injective inner
  outside : ∀ x, inner x ∉ S
  nodup_start : start.Nodup
  nodup_inside : ∀ x, (inside x).Nodup

theorem Listed.not_start (h : Listed inner child S start inside enters) {x y : α} (hy : y ∈ inside x) : y ∉ start := by
  intro hstart
  obtain ⟨c, hc, hchild⟩ := (h.mem_start y).mp hstart
  exact h.outside x (h.one _ _ y hchild ((h.mem_inside x y).mp hy) ▸ hc)

theorem Listed.holder (h : Listed inner child S start inside enters) {x x' y : α}
    (hy : y ∈ inside x) (hy' : y ∈ inside x') : x = x' :=
  h.injective (h.one _ _ y ((h.mem_inside x y).mp hy) ((h.mem_inside x' y).mp hy'))

/-- A walk that went through `done` and has `queue` before it. -/
structure Frontier (inner : α → C) (child : C → α → Prop) (S : Set C) (start : List α)
    (inside : α → List α) (enters : α → Bool) (done queue : List α) : Prop where
  nodup : (done ++ queue).Nodup
  below : ∀ x ∈ done ++ queue, Below inner child S x
  holder : ∀ x ∈ done ++ queue, x ∈ start ∨ ∃ y ∈ done, x ∈ inside y
  start : ∀ x ∈ start, enters x = true → x ∈ done ++ queue
  closed : ∀ y ∈ done, ∀ x ∈ inside y, enters x = true → x ∈ done ++ queue

variable {done queue : List α} {x : α}

theorem Frontier.begin (h : Listed inner child S start inside enters) :
    Frontier inner child S start inside enters [] (start.filter enters) where
  nodup := h.nodup_start.filter _
  below x hx := by
    obtain ⟨c, hc, hchild⟩ := (h.mem_start x).mp (List.mem_of_mem_filter hx)
    exact .root hc hchild
  holder x hx := .inl (List.mem_of_mem_filter hx)
  start x hx henters := List.mem_filter.mpr ⟨hx, henters⟩
  closed y hy := nomatch hy

theorem Frontier.step (h : Listed inner child S start inside enters)
    (hf : Frontier inner child S start inside enters done (x :: queue)) :
    Frontier inner child S start inside enters (done ++ [x]) (queue ++ (inside x).filter enters) := by
  have hlists : done ++ [x] ++ (queue ++ (inside x).filter enters) =
      done ++ x :: queue ++ (inside x).filter enters := by simp
  have hx : x ∉ done := fun hdone =>
    List.disjoint_of_nodup_append hf.nodup hdone List.mem_cons_self
  have hnew : ∀ y ∈ (inside x).filter enters, y ∉ done ++ x :: queue := by
    intro y hy hold
    have hinside := List.mem_of_mem_filter hy
    rcases hf.holder y hold with hstart | ⟨z, hz, hzy⟩
    · exact h.not_start hinside hstart
    · exact hx (h.holder hzy hinside ▸ hz)
  refine ⟨?_, ?_, ?_, ?_, ?_⟩
  · rw [hlists]
    exact hf.nodup.append ((h.nodup_inside x).filter _) fun y hold hy => hnew y hy hold
  · rw [hlists]
    intro y hy
    rcases List.mem_append.mp hy with hold | hy
    · exact hf.below y hold
    · exact .inside (hf.below x (by simp))
        ((h.mem_inside x y).mp (List.mem_of_mem_filter hy))
  · rw [hlists]
    intro y hy
    rcases List.mem_append.mp hy with hold | hy
    · rcases hf.holder y hold with hstart | ⟨z, hz, hzy⟩
      · exact .inl hstart
      · exact .inr ⟨z, List.mem_append_left _ hz, hzy⟩
    · exact .inr ⟨x, by simp, List.mem_of_mem_filter hy⟩
  · rw [hlists]
    exact fun y hy henters => List.mem_append_left _ (hf.start y hy henters)
  · rw [hlists]
    intro z hz y hy henters
    rcases List.mem_append.mp hz with hz | hz
    · exact List.mem_append_left _ (hf.closed z hz y hy henters)
    · rw [List.mem_singleton.mp hz] at hy
      exact List.mem_append_right _ (List.mem_filter.mpr ⟨hy, henters⟩)

/-- With fuel for all that is below, the walk works off its queue. -/
theorem Frontier.run (h : Listed inner child S start inside enters) {s : Finset α}
    (hs : ∀ x, Below inner child S x → x ∈ s) (fuel : ℕ) (hf : Frontier inner child S start inside enters done queue)
    (hfuel : s.card ≤ fuel + done.length) :
    Frontier inner child S start inside enters (done ++ visits inside enters fuel queue) [] := by
  classical
  have hlen : done.length + queue.length ≤ s.card := by
    rw [← List.length_append, ← List.toFinset_card_of_nodup hf.nodup]
    exact Finset.card_le_card fun x hx => hs x (hf.below x (List.mem_toFinset.mp hx))
  induction fuel generalizing done queue with
  | zero =>
    obtain rfl : queue = [] := List.eq_nil_of_length_eq_zero (by omega)
    rwa [visits, List.append_nil]
  | succ fuel ih =>
    cases queue with
    | nil => simpa [visits] using hf
    | cons x queue =>
      have hstep := hf.step h
      have hlen' : (done ++ [x]).length + (queue ++ (inside x).filter enters).length ≤ s.card := by
        rw [← List.length_append, ← List.toFinset_card_of_nodup hstep.nodup]
        exact Finset.card_le_card fun y hy => hs y (hstep.below y (List.mem_toFinset.mp hy))
      have hrest := ih hstep (by simp only [List.length_append, List.length_singleton]; omega) hlen'
      rwa [List.append_assoc, List.singleton_append] at hrest

/-- What is at the start and what is in the things that are walked through is all that is below. -/
theorem mem_walk_iff (h : Listed inner child S start inside enters) {s : Finset α}
    (hs : ∀ x, Below inner child S x → x ∈ s) {fuel : ℕ} (hfuel : s.card ≤ fuel) :
    x ∈ start ++ (visits inside enters fuel (start.filter enters)).flatMap inside ↔ Below inner child S x := by
  have hf := Frontier.run h hs fuel (Frontier.begin h) hfuel
  rw [List.nil_append] at hf
  have hdone := hf.closed
  have hbelow := hf.below
  have hstart := hf.start
  simp only [List.append_nil] at hdone hbelow hstart
  rw [List.mem_append, List.mem_flatMap]
  constructor
  · rintro (hx | ⟨y, hy, hx⟩)
    · obtain ⟨c, hc, hchild⟩ := (h.mem_start x).mp hx
      exact .root hc hchild
    · exact .inside (hbelow y hy) ((h.mem_inside y x).mp hx)
  · intro hx
    induction hx with
    | root hc hchild => exact .inl ((h.mem_start _).mpr ⟨_, hc, hchild⟩)
    | @inside x y _ hchild ih =>
      have hx := (h.mem_inside y x).mpr hchild
      have henters := h.entered y x hx
      rcases ih with hy | ⟨z, hz, hy⟩
      · exact .inr ⟨y, hstart y hy henters, hx⟩
      · exact .inr ⟨y, hdone z hz y hy henters, hx⟩

theorem nodup_walk (h : Listed inner child S start inside enters) {s : Finset α}
    (hs : ∀ x, Below inner child S x → x ∈ s) {fuel : ℕ} (hfuel : s.card ≤ fuel) :
    (start ++ (visits inside enters fuel (start.filter enters)).flatMap inside).Nodup := by
  have hf := Frontier.run h hs fuel (Frontier.begin h) hfuel
  rw [List.nil_append] at hf
  have hnodup := hf.nodup
  rw [List.append_nil] at hnodup
  refine h.nodup_start.append (List.nodup_flatMap.mpr ⟨fun y _ => h.nodup_inside y, ?_⟩) ?_
  · refine hnodup.imp fun {y z} hne => ?_
    exact fun x hx hx' => hne (h.holder hx hx')
  · intro x hx hx'
    obtain ⟨y, -, hy⟩ := List.mem_flatMap.mp hx'
    exact h.not_start hy hx

end ForgottenServer.Lib.Traversal
