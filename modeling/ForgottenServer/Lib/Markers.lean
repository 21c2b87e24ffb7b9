import Mathlib.Data.List.Basic
import Mathlib.Tactic.Common

/-! # Markers and escapes

A stream in which one symbol opens a node, with a label behind it, another closes
it, and a third protects the symbol behind it. A stream is read as a list of
tokens; their nesting has a depth. Data is written with an escape before every
marker, and a filter with one bit of state takes the escapes out again. -/
namespace ForgottenServer.Lib.Markers

/-- Three different symbols. -/
structure Marks (β : Type*) where
  start : β
  close : β
  escape : β
  start_ne_close : start ≠ close
  start_ne_escape : start ≠ escape
  close_ne_escape : close ≠ escape

inductive Token (β : Type*)
  | start (label : β)
  | close
  | escaped (b : β)
  | plain (b : β)

variable {β : Type*} (m : Marks β)

def write : Token β → List β
  | .start label => [m.start, label]
  | .close => [m.close]
  | .escaped b => [m.escape, b]
  | .plain b => [b]

def writeAll (l : List (Token β)) : List β := l.flatMap (write m)

/-- Plain symbols are not markers. -/
def Valid : Token β → Prop
  | .plain b => b ≠ m.start ∧ b ≠ m.close ∧ b ≠ m.escape
  | _ => True

/-- The depth behind the tokens, unless one of them closes what was not opened. -/
def depth : ℕ → List (Token β) → Option ℕ
  | n, [] => some n
  | n, .start _ :: l => depth (n + 1) l
  | 0, .close :: _ => none
  | n + 1, .close :: l => depth n l
  | n, .escaped _ :: l => depth n l
  | n, .plain _ :: l => depth n l

variable [DecidableEq β]

/-- The tokens of a stream that does not break off behind a start or an escape. -/
def lex : List β → Option (List (Token β))
  | [] => some []
  | [b] =>
    if b = m.start ∨ b = m.escape then none else some [if b = m.close then .close else .plain b]
  | b :: c :: l =>
    if b = m.start then (lex l).map (.start c :: ·)
    else if b = m.escape then (lex l).map (.escaped c :: ·)
    else (lex (c :: l)).map ((if b = m.close then .close else .plain b) :: ·)

def Balanced (l : List β) : Prop := ∃ tokens, lex m l = some tokens ∧ depth 0 tokens = some 0

def protect (data : List β) : List (Token β) :=
  data.map fun b => if b = m.start ∨ b = m.close ∨ b = m.escape then .escaped b else .plain b

/-- Take the escapes out; the bit says that the symbol before was one. -/
def unescape : Bool → List β → List β
  | _, [] => []
  | lastEscaped, b :: l =>
    if b = m.escape ∧ lastEscaped = false then unescape true l else b :: unescape false l

section Lex
variable {m} {l : List β}

/-- A symbol that neither opens nor escapes is a token of its own. -/
theorem lex_cons {b : β} (hstart : b ≠ m.start) (hescape : b ≠ m.escape) :
    lex m (b :: l) = (lex m l).map ((if b = m.close then .close else .plain b) :: ·) := by
  have hneither : ¬ (b = m.start ∨ b = m.escape) := not_or.mpr ⟨hstart, hescape⟩
  cases l with
  | nil => simp only [lex, if_neg hneither, Option.map_some]
  | cons c l => rw [lex, if_neg hstart, if_neg hescape]

theorem lex_write (t : Token β) (ht : Valid m t) : lex m (write m t ++ l) = (lex m l).map (t :: ·) := by
  cases t with
  | start label => rw [write, List.cons_append, List.singleton_append, lex, if_pos rfl]
  | close =>
    rw [write, List.singleton_append, lex_cons m.start_ne_close.symm m.close_ne_escape, if_pos rfl]
  | escaped b =>
    rw [write, List.cons_append, List.singleton_append, lex, if_neg m.start_ne_escape.symm, if_pos rfl]
  | plain b =>
    obtain ⟨hstart, hclose, hescape⟩ := ht
    rw [write, List.singleton_append, lex_cons hstart hescape, if_neg hclose]

theorem lex_writeAll {tokens : List (Token β)} (h : ∀ t ∈ tokens, Valid m t) :
    lex m (writeAll m tokens ++ l) = (lex m l).map (tokens ++ ·) := by
  induction tokens with
  | nil => simp [writeAll]
  | cons t tokens ih =>
    have htail : ∀ t' ∈ tokens, Valid m t' := fun t' ht' => h t' (List.mem_cons_of_mem t ht')
    rw [writeAll, List.flatMap_cons, List.append_assoc, lex_write t (h t (List.mem_cons_self ..)),
      ← writeAll, ih htail, Option.map_map]
    rfl

/-- The tokens are written as the stream that they were read from. -/
theorem writeAll_of_lex {tokens : List (Token β)} (h : lex m l = some tokens) : writeAll m tokens = l := by
  induction l using lex.induct m generalizing tokens with
  | case1 =>
    cases h
    rfl
  | case2 b hbreak =>
    rw [lex, if_pos hbreak] at h
    cases h
  | case3 b hwhole =>
    rw [lex, if_neg hwhole, Option.some.injEq] at h
    subst h
    split
    · rename_i hclose
      rw [hclose]
      rfl
    · rfl
  | case4 c l ih =>
    rw [lex, if_pos rfl] at h
    obtain ⟨rest, hrest, rfl⟩ := Option.map_eq_some_iff.mp h
    rw [writeAll, List.flatMap_cons, ← writeAll, ih hrest]
    rfl
  | case5 c l hne ih =>
    rw [lex, if_neg hne, if_pos rfl] at h
    obtain ⟨rest, hrest, rfl⟩ := Option.map_eq_some_iff.mp h
    rw [writeAll, List.flatMap_cons, ← writeAll, ih hrest]
    rfl
  | case6 b c l hstart hescape ih =>
    rw [lex, if_neg hstart, if_neg hescape] at h
    obtain ⟨rest, hrest, rfl⟩ := Option.map_eq_some_iff.mp h
    rw [writeAll, List.flatMap_cons, ← writeAll, ih hrest]
    split
    · rename_i hclose
      rw [hclose]
      rfl
    · rfl

end Lex

section Data
variable {m} {data : List β}

theorem valid_protect : ∀ t ∈ protect m data, Valid m t := by
  intro t ht
  obtain ⟨b, _, rfl⟩ := List.mem_map.mp ht
  split
  · trivial
  · rename_i h
    obtain ⟨hstart, hrest⟩ := not_or.mp h
    exact ⟨hstart, not_or.mp hrest⟩

theorem unescape_protect (data : List β) : unescape m false (writeAll m (protect m data)) = data := by
  induction data with
  | nil => rfl
  | cons b data ih =>
    rw [protect, List.map_cons, writeAll, List.flatMap_cons, ← protect, ← writeAll]
    split
    · -- the escape is dropped, and what stands behind it is kept
      rw [write, List.cons_append, List.singleton_append, unescape, if_pos ⟨rfl, rfl⟩, unescape, if_neg (by simp), ih]
    · rename_i h
      have hescape : b ≠ m.escape := fun heq => h (.inr (.inr heq))
      rw [write, List.singleton_append, unescape, if_neg (by simp [hescape]), ih]

omit [DecidableEq β] in
theorem writeAll_eq_nil {tokens : List (Token β)} : writeAll m tokens = [] ↔ tokens = [] := by
  cases tokens with
  | nil => simp [writeAll]
  | cons t tokens => cases t <;> simp [writeAll, write]

end Data
end ForgottenServer.Lib.Markers
