import Mathlib.Data.List.DropRight

/-! # Trimming both ends of a list

`Strips p l m` says that `m` is left of `l` when a run of members satisfying `p` goes at
either end. Several passes over the ends strip what one pass over both does, as soon as
what they leave neither begins nor ends with such a member. -/
namespace ForgottenServer.Lib.Trimming

variable {α : Type*} {p q : α → Bool} {l m n : List α}

def trim (p : α → Bool) (l : List α) : List α := (l.rdropWhile p).dropWhile p

def Strips (p : α → Bool) (l m : List α) : Prop :=
  ∃ front back, l = front ++ m ++ back ∧ (∀ c ∈ front, p c = true) ∧ ∀ c ∈ back, p c = true

/-- Neither end of the list satisfies `p`. -/
def Clean (p : α → Bool) (l : List α) : Prop :=
  (∀ c ∈ l.head?, p c = false) ∧ ∀ c ∈ l.getLast?, p c = false

theorem Strips.mono (h : Strips p l m) (hpq : ∀ c, p c = true → q c = true) : Strips q l m := by
  obtain ⟨front, back, hl, hfront, hback⟩ := h
  exact ⟨front, back, hl, fun c hc => hpq c (hfront c hc), fun c hc => hpq c (hback c hc)⟩

theorem Strips.trans (h : Strips p l m) (h' : Strips p m n) : Strips p l n := by
  obtain ⟨a, b, rfl, ha, hb⟩ := h
  obtain ⟨a', b', rfl, ha', hb'⟩ := h'
  refine ⟨a ++ a', b' ++ b, by simp, ?_, ?_⟩
  · intro c hc
    exact (List.mem_append.mp hc).elim (ha c) (ha' c)
  · intro c hc
    exact (List.mem_append.mp hc).elim (hb' c) (hb c)

theorem strips_dropWhile (p : α → Bool) (l : List α) : Strips p l (l.dropWhile p) :=
  ⟨l.takeWhile p, [], by simp, fun _ hc => List.mem_takeWhile_imp hc, by simp⟩

theorem strips_rdropWhile (p : α → Bool) (l : List α) : Strips p l (l.rdropWhile p) :=
  ⟨[], l.rtakeWhile p, by simp, by simp, fun _ hc => List.mem_rtakeWhile_imp hc⟩

theorem strips_trim (p : α → Bool) (l : List α) : Strips p l (trim p l) :=
  (strips_rdropWhile p l).trans (strips_dropWhile p _)

theorem dropWhile_clean_front (p : α → Bool) (l : List α) : ∀ c ∈ (l.dropWhile p).head?, p c = false := by
  intro c hc
  have hhead := List.head?_dropWhile_not p l
  rw [Option.mem_def.mp hc] at hhead
  simpa using hhead

theorem rdropWhile_clean_back (p : α → Bool) (l : List α) : ∀ c ∈ (l.rdropWhile p).getLast?, p c = false := by
  intro c hc
  obtain ⟨hne, hlast⟩ := List.mem_getLast?_eq_getLast hc
  have := List.rdropWhile_last_not p l hne
  rw [← hlast] at this
  simpa using this

theorem trim_clean (p : α → Bool) (l : List α) : Clean p (trim p l) := by
  refine ⟨dropWhile_clean_front p _, ?_⟩
  intro c hc
  apply rdropWhile_clean_back p l c
  -- what is dropped in front leaves the last member where it was
  obtain ⟨front, hfront⟩ := List.dropWhile_suffix p (l := l.rdropWhile p)
  rw [← hfront, List.getLast?_append]
  simp only [trim] at hc
  rw [Option.mem_def.mp hc]
  rfl

/-- A list is stripped to one clean list only. -/
theorem Strips.trim_eq (h : Strips p l m) (hm : Clean p m) : trim p l = m := by
  obtain ⟨front, back, rfl, hfront, hback⟩ := h
  have hright : (front ++ m ++ back).rdropWhile p = (front ++ m).rdropWhile p := by
    rw [List.rdropWhile, List.reverse_append, List.dropWhile_append_of_pos, List.rdropWhile]
    intro c hc
    exact hback c (List.mem_reverse.mp hc)
  rw [trim, hright]
  cases hlast : m.getLast? with
  | none =>
    obtain rfl := List.getLast?_eq_none_iff.mp hlast
    have hnil : (front ++ []).rdropWhile p = [] := List.rdropWhile_eq_nil_iff.mpr (by simpa using hfront)
    rw [hnil, List.dropWhile_nil]
  | some last =>
    have hkeep : (front ++ m).rdropWhile p = front ++ m := by
      rw [List.rdropWhile_eq_self_iff]
      intro hne
      have hend : (front ++ m).getLast hne = last :=
        List.getLast_of_mem_getLast? (by simp [List.getLast?_append, hlast])
      rw [hend, hm.2 last hlast]
      exact Bool.false_ne_true
    rw [hkeep, List.dropWhile_append_of_pos hfront]
    cases m with
    | nil => rfl
    | cons c m =>
      have := hm.1 c rfl
      rw [List.dropWhile_cons_of_neg (by simp [this])]

end ForgottenServer.Lib.Trimming
