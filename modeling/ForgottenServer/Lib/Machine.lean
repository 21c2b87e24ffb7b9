import Mathlib.Logic.Basic

/-! # Machines that answer

A machine takes one input after the other and answers each of them. Two states
that a bisimulation relates answer alike, and what answers alike agrees on the
first answer and behind it. -/
namespace ForgottenServer.Lib.Machine

variable {σ τ ι ω : Type*}

/-- The answers to the inputs, taken one by one from `s`. -/
def answers (step : σ → ι → σ × ω) : σ → List ι → List ω
  | _, [] => []
  | s, i :: is => (step s i).2 :: answers step (step s i).1 is

/-- No inputs tell the two states apart. -/
def Alike (step : σ → ι → σ × ω) (s t : σ) : Prop := ∀ is, answers step s is = answers step t is

variable {step : σ → ι → σ × ω} {step' : τ → ι → τ × ω} {s t : σ} {t' : τ}

theorem Alike.answer (h : Alike step s t) (i : ι) : (step s i).2 = (step t i).2 :=
  List.head_eq_of_cons_eq (h [i])

/-- States in a relation that the steps of two machines keep, with the same answers. -/
theorem answers_of_bisim {R : σ → τ → Prop}
    (hR : ∀ s t i, R s t → (step s i).2 = (step' t i).2 ∧ R (step s i).1 (step' t i).1) (h : R s t')
    (is : List ι) : answers step s is = answers step' t' is := by
  induction is generalizing s t' with
  | nil => rfl
  | cons i is ih =>
    obtain ⟨hanswer, hnext⟩ := hR s t' i h
    rw [answers, answers, hanswer, ih hnext]

theorem alike_of_bisim {R : σ → σ → Prop}
    (hR : ∀ s t i, R s t → (step s i).2 = (step t i).2 ∧ R (step s i).1 (step t i).1) (h : R s t) :
    Alike step s t := answers_of_bisim hR h

theorem answers_embed {f : σ → τ} (hf : ∀ s i, step' (f s) i = (f (step s i).1, (step s i).2)) (s : σ) (is : List ι) :
    answers step' (f s) is = answers step s is := by
  induction is generalizing s with
  | nil => rfl
  | cons i is ih => rw [answers, answers, hf, ih]

theorem alike_embed (step : σ → ι → σ × ω) {f : σ → τ} (hf : ∀ s i, step' (f s) i = (f (step s i).1, (step s i).2)) :
    Alike step' (f s) (f t) ↔ Alike step s t := by
  unfold Alike
  simp only [answers_embed hf]

/-! ## Programs on two states -/

section Programs
variable {σ τ α β : Type} {R : σ → τ → Prop} {f : StateT σ Option α} {g : StateT τ Option α}

/-- From related states both programs end in related states, with the same result. -/
def Agree (R : σ → τ → Prop) (f : StateT σ Option α) (g : StateT τ Option α) : Prop :=
  ∀ s t, R s t → ∃ a s' t', f s = some (a, s') ∧ g t = some (a, t') ∧ R s' t'

theorem agree_pure (a : α) : Agree R (pure a) (pure a) := fun s t h => ⟨a, s, t, rfl, rfl, h⟩

theorem Agree.bind (h : Agree R f g) {f' : α → StateT σ Option β} {g' : α → StateT τ Option β}
    (h' : ∀ a, Agree R (f' a) (g' a)) : Agree R (f >>= f') (g >>= g') := by
  intro s t hst
  obtain ⟨a, s', t', hs, ht, hnext⟩ := h s t hst
  obtain ⟨b, s'', t'', hs', ht', hlast⟩ := h' a s' t' hnext
  refine ⟨b, s'', t'', ?_, ?_, hlast⟩
  · change (f s).bind (fun x => f' x.1 x.2) = _
    rw [hs]
    exact hs'
  · change (g t).bind (fun x => g' x.1 x.2) = _
    rw [ht]
    exact ht'

theorem Agree.map (h : Agree R f g) (k : α → β) : Agree R (k <$> f) (k <$> g) := by
  intro s t hst
  obtain ⟨a, s', t', hs, ht, hnext⟩ := h s t hst
  refine ⟨k a, s', t', ?_, ?_, hnext⟩
  · change (f s).bind (fun x => some (k x.1, x.2)) = _
    rw [hs]
    rfl
  · change (g t).bind (fun x => some (k x.1, x.2)) = _
    rw [ht]
    rfl

end Programs

end ForgottenServer.Lib.Machine
