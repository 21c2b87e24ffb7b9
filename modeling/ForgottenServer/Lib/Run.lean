import Mathlib.Data.List.Infix

/-! # Runs of a step function

A run folds a step function over a list of events. `Along` says that every
event meets a condition in the state it is taken from; `inv_run` and
`inv_reached` turn a one-step preservation lemma into a fact about a whole run
and about every state on the way. -/
namespace ForgottenServer.Lib.Run

variable {σ ε : Type*}

/-- The state after the events `es`, taken one by one from `s`. -/
def run (step : σ → ε → σ) (s : σ) (es : List ε) : σ := es.foldl step s

/-- Every event of the run meets `ok` in the state before it. -/
def Along (step : σ → ε → σ) (ok : σ → ε → Prop) : σ → List ε → Prop
  | _, [] => True
  | s, e :: es => ok s e ∧ Along step ok (step s e) es

instance Along.decidable (step : σ → ε → σ) (ok : σ → ε → Prop) [∀ s e, Decidable (ok s e)] :
    ∀ s es, Decidable (Along step ok s es)
  | _, [] => .isTrue trivial
  | s, e :: es =>
    have := Along.decidable step ok (step s e) es
    inferInstanceAs (Decidable (ok s e ∧ Along step ok (step s e) es))

@[simp] theorem run_nil (step : σ → ε → σ) (s : σ) : run step s [] = s := rfl

@[simp] theorem run_cons (step : σ → ε → σ) (s : σ) (e : ε) (es : List ε) :
    run step s (e :: es) = run step (step s e) es := rfl

theorem run_append (step : σ → ε → σ) (s : σ) (es fs : List ε) :
    run step s (es ++ fs) = run step (run step s es) fs := List.foldl_append

theorem Along.left {step : σ → ε → σ} {ok : σ → ε → Prop} {s : σ} {es fs : List ε}
    (h : Along step ok s (es ++ fs)) : Along step ok s es := by
  induction es generalizing s with
  | nil => trivial
  | cons e es ih => exact ⟨h.1, ih h.2⟩

theorem Along.right {step : σ → ε → σ} {ok : σ → ε → Prop} {s : σ} {es fs : List ε}
    (h : Along step ok s (es ++ fs)) : Along step ok (run step s es) fs := by
  induction es generalizing s with
  | nil => exact h
  | cons e es ih => exact ih h.2

/-- The last event meets it in the state the others lead to. -/
theorem Along.last {step : σ → ε → σ} {ok : σ → ε → Prop} {s : σ} {es : List ε} {e : ε}
    (h : Along step ok s (es ++ [e])) : ok (run step s es) e := by
  induction es generalizing s with
  | nil => exact h.1
  | cons e' es ih => exact ih h.2

theorem Along.and {step : σ → ε → σ} {ok ok' : σ → ε → Prop} {s : σ} {es : List ε} (h : Along step ok s es)
    (h' : Along step ok' s es) : Along step (fun s e => ok s e ∧ ok' s e) s es := by
  induction es generalizing s with
  | nil => trivial
  | cons e es ih => exact ⟨⟨h.1, h'.1⟩, ih h.2 h'.2⟩

theorem Along.of_forall {step : σ → ε → σ} {ok : ε → Prop} {s : σ} {es : List ε}
    (h : ∀ e ∈ es, ok e) : Along step (fun _ e => ok e) s es := by
  induction es generalizing s with
  | nil => trivial
  | cons e es ih => exact ⟨h e (by simp), ih fun e' he' => h e' (List.mem_cons_of_mem e he')⟩

/-- What every step that meets `ok` preserves, a run of such steps preserves. -/
theorem inv_run {step : σ → ε → σ} {ok : σ → ε → Prop} {Inv : σ → Prop}
    (hstep : ∀ s e, Inv s → ok s e → Inv (step s e)) {s : σ} {es : List ε}
    (hs : Inv s) (hok : Along step ok s es) : Inv (run step s es) := by
  induction es generalizing s with
  | nil => exact hs
  | cons e es ih => exact ih (hstep s e hs hok.1) hok.2

/-- The same at every state the run passes through. -/
theorem inv_reached {step : σ → ε → σ} {ok : σ → ε → Prop} {Inv : σ → Prop}
    (hstep : ∀ s e, Inv s → ok s e → Inv (step s e)) {s : σ} {es : List ε} (hs : Inv s) (hok : Along step ok s es) :
    ∀ pre, pre <+: es → Inv (run step s pre) := by
  rintro pre ⟨post, rfl⟩
  exact inv_run hstep hs hok.left

/-- A view of the state in which every step is a step of its own. -/
theorem run_view {τ : Type*} {step : σ → ε → σ} {step' : τ → ε → τ} {view : σ → τ} {Inv : σ → Prop}
    (hstep : ∀ s e, Inv s → Inv (step s e)) (hview : ∀ s e, Inv s → view (step s e) = step' (view s) e) {s : σ}
    (hs : Inv s) (es : List ε) : view (run step s es) = run step' (view s) es := by
  induction es generalizing s with
  | nil => rfl
  | cons e es ih => rw [run_cons, run_cons, ih (hstep s e hs), hview s e hs]

/-- Where a legal step keeps the invariant exactly if it meets `ok`, a legal run has
it in every state exactly if all its steps do. `Base` is what legal steps keep in
any case. -/
theorem inv_reached_iff_of_legal {step : σ → ε → σ} {legal ok : σ → ε → Prop} {Base Inv : σ → Prop}
    (hbase : ∀ s e, Base s → legal s e → Base (step s e))
    (hstep : ∀ s e, Base s → Inv s → legal s e → (Inv (step s e) ↔ ok s e)) {s : σ} {es : List ε}
    (hs : Base s) (hinv : Inv s) (hlegal : Along step legal s es) :
    (∀ pre, pre <+: es → Inv (run step s pre)) ↔ Along step ok s es := by
  induction es generalizing s with
  | nil =>
    refine ⟨fun _ => trivial, fun _ pre hpre => ?_⟩
    rw [List.prefix_nil.mp hpre]
    exact hinv
  | cons e es ih =>
    have hfirst := hstep s e hs hinv hlegal.1
    constructor
    · intro h
      have hnext : Inv (step s e) := h [e] ⟨es, rfl⟩
      refine ⟨hfirst.mp hnext, (ih (hbase s e hs hlegal.1) hnext hlegal.2).mp fun pre hpre => ?_⟩
      exact h (e :: pre) (List.cons_prefix_cons.mpr ⟨rfl, hpre⟩)
    · rintro ⟨hok, hrest⟩ pre hpre
      cases pre with
      | nil => exact hinv
      | cons e' pre =>
        obtain ⟨rfl, htail⟩ := List.cons_prefix_cons.mp hpre
        exact (ih (hbase s e' hs hlegal.1) (hfirst.mpr hok) hlegal.2).mpr hrest pre htail

/-- Where a step keeps the invariant exactly if it meets `ok`, a run has it in
every state exactly if all its steps do. -/
theorem inv_reached_iff {step : σ → ε → σ} {ok : σ → ε → Prop} {Inv : σ → Prop}
    (hstep : ∀ s e, Inv s → (Inv (step s e) ↔ ok s e)) {s : σ} {es : List ε} (hs : Inv s) :
    (∀ pre, pre <+: es → Inv (run step s pre)) ↔ Along step ok s es :=
  have hall : Along step (fun _ _ => True) s es := Along.of_forall fun _ _ => trivial
  @inv_reached_iff_of_legal _ _ step (fun _ _ => True) ok (fun _ => True) Inv (fun _ _ _ _ => trivial)
    (fun s e _ hinv _ => hstep s e hinv) s es trivial hs hall

end ForgottenServer.Lib.Run
