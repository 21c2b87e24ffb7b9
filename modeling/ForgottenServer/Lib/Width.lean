import ForgottenServer.Lib.Wire

/-! # Readers of a fixed width

A reader that takes a number of bytes, whatever they are, or fails where there are
fewer. Such readers one after another take the sum of their widths. -/
namespace ForgottenServer.Lib.Width
open Wire

variable {α β : Type}

def Takes (w : ℕ) (f : Bytes → Option (α × Bytes)) : Prop :=
  ∃ value : Bytes → α, ∀ s, f s = if s.length < w then none else some (value (s.take w), s.drop w)

/-- Without a width, it fails on all. -/
inductive Fits : Option ℕ → (Bytes → Option (α × Bytes)) → Prop
  | takes {w : ℕ} {f : Bytes → Option (α × Bytes)} (h : Takes w f) : Fits (some w) f
  | fails {f : Bytes → Option (α × Bytes)} (h : ∀ s, f s = none) : Fits none f

variable {f : Bytes → Option (α × Bytes)} {v w : ℕ}

theorem Takes.short (h : Takes w f) {s : Bytes} (hs : s.length < w) : f s = none := by
  obtain ⟨value, h⟩ := h
  rw [h, if_pos hs]

theorem Takes.long (h : Takes w f) {s : Bytes} (hs : w ≤ s.length) : ∃ a, f s = some (a, s.drop w) := by
  obtain ⟨value, h⟩ := h
  exact ⟨value (s.take w), by rw [h, if_neg (by omega)]⟩

theorem Takes.rest (h : Takes w f) {a : α} {s r : Bytes} (hread : f s = some (a, r)) : r.length ≤ s.length := by
  obtain ⟨value, h⟩ := h
  rw [h] at hread
  split at hread
  · cases hread
  · cases hread
    rw [List.length_drop]
    omega

theorem Fits.rest {w : Option ℕ} (h : Fits w f) {a : α} {s r : Bytes} (hread : f s = some (a, r)) :
    r.length ≤ s.length := by
  cases h with
  | takes h => exact h.rest hread
  | fails h => cases (h s).symm.trans hread

/-! ## The readers -/

theorem takes_pure (a : α) : Takes 0 fun s => some (a, s) := ⟨fun _ => a, fun _ => rfl⟩

theorem takes_read (k : ℕ) : Takes k (read k) := ⟨decode, fun _ => rfl⟩

theorem takes_read8 : Takes 1 read8 := by
  refine ⟨fun s => s.headD 0, fun s => ?_⟩
  cases s with
  | nil => rfl
  | cons x s => rw [if_neg (by simp)]; rfl

/-! ## What is made of them -/

/-- It changes what was read and leaves what follows. -/
def Pure (g : α × Bytes → β × Bytes) : Prop := ∃ value : α → β, ∀ a s, g (a, s) = (value a, s)

theorem Takes.map {g : α × Bytes → β × Bytes} (h : Takes w f) (hg : Pure g) : Takes w fun s => (f s).map g := by
  obtain ⟨value, h⟩ := h
  obtain ⟨change, hg⟩ := hg
  refine ⟨fun s => change (value s), fun s => ?_⟩
  dsimp only
  rw [h]
  split
  · rfl
  · rw [Option.map_some, hg]

theorem Fits.map {w : Option ℕ} (h : Fits w f) (value : α → β) :
    Fits w fun s => (f s).map fun x => (value x.1, x.2) := by
  cases h with
  | takes h => exact .takes (h.map ⟨value, fun _ _ => rfl⟩)
  | fails h => exact .fails fun s => by rw [h s]; rfl

theorem Takes.bind {g : α → Bytes → Option (β × Bytes)} (hf : Takes v f) (hg : ∀ a, Takes w (g a)) :
    Takes (v + w) fun s => (f s).bind fun (a, s) => g a s := by
  obtain ⟨first, hf⟩ := hf
  choose second hg using hg
  refine ⟨fun s => second (first (s.take v)) (s.drop v), fun s => ?_⟩
  dsimp only
  rw [hf]
  by_cases hv : s.length < v
  · rw [if_pos hv, if_pos (by omega)]
    rfl
  · rw [if_neg hv, Option.bind_some]
    dsimp only
    rw [hg, List.length_drop, List.take_take, Nat.min_eq_left (Nat.le_add_right v w), List.drop_take,
      Nat.add_sub_cancel_left, List.drop_drop]
    have hiff : s.length - v < w ↔ s.length < v + w := by omega
    simp only [hiff]

theorem takes_read16 : Takes 2 read16 := (takes_read 2).map ⟨UInt16.ofNat, fun _ _ => rfl⟩

theorem takes_read32 : Takes 4 read32 := (takes_read 4).map ⟨UInt32.ofNat, fun _ _ => rfl⟩

end ForgottenServer.Lib.Width
