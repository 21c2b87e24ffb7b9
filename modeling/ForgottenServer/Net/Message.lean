import ForgottenServer.Lib.Buffer
import ForgottenServer.Lib.Run
import ForgottenServer.Lib.Wire

/-! # Messages

A message is written behind the room for its headers, as long as there is room for
more. What does not fit is left out without a word. -/
namespace ForgottenServer.Net
open ForgottenServer.Lib.Buffer ForgottenServer.Lib.Run ForgottenServer.Lib.Wire

def NETWORKMESSAGE_MAXSIZE : ℕ := 24590

def INITIAL_BUFFER_POSITION : ℕ := 8

/-- What is left of the size without the headers and a block of the cipher. -/
def MAX_BODY_LENGTH : ℕ := NETWORKMESSAGE_MAXSIZE - 2 - 4 - 8

def MAX_PROTOCOL_BODY_LENGTH : ℕ := MAX_BODY_LENGTH - 10

structure NetworkMessage where
  buffer : Memory
  length : ℕ := 0
  position : ℕ := INITIAL_BUFFER_POSITION

namespace NetworkMessage

def canAdd (msg : NetworkMessage) (size : ℕ) : Bool := size + msg.position < MAX_BODY_LENGTH

def copy (msg : NetworkMessage) (bytes : Bytes) : NetworkMessage where
  buffer := put msg.buffer msg.position bytes
  length := msg.length + bytes.length
  position := msg.position + bytes.length

/-- `add<T>`, for a value with the bytes `value`. -/
def add (msg : NetworkMessage) (value : Bytes) : NetworkMessage :=
  if !msg.canAdd value.length then msg else msg.copy value

def addByte (msg : NetworkMessage) (value : UInt8) : NetworkMessage := msg.add [value]

def addString (msg : NetworkMessage) (value : Bytes) : NetworkMessage :=
  if !msg.canAdd (value.length + 2) || 8192 < value.length then msg
  else (msg.add (encode 2 value.length)).copy value

def addBytes (msg : NetworkMessage) (bytes : Bytes) : NetworkMessage :=
  if !msg.canAdd bytes.length || 8192 < bytes.length then msg else msg.copy bytes

def addPaddingBytes (msg : NetworkMessage) (n : ℕ) : NetworkMessage :=
  if !msg.canAdd n then msg else msg.copy (List.replicate n 0x33)

def body (msg : NetworkMessage) : Bytes := slice msg.buffer INITIAL_BUFFER_POSITION msg.length

end NetworkMessage

inductive Write
  | addByte (value : UInt8)
  | add (value : Bytes)
  | addString (value : Bytes)
  | addBytes (bytes : Bytes)

/-- The bytes of a write, if there is room for them. -/
def Write.bytes : Write → Bytes
  | .addByte value => [value]
  | .add value => value
  | .addString value => encode 2 value.length ++ value
  | .addBytes bytes => bytes

def NetworkMessage.write (msg : NetworkMessage) : Write → NetworkMessage
  | .addByte value => msg.addByte value
  | .add value => msg.add value
  | .addString value => msg.addString value
  | .addBytes bytes => msg.addBytes bytes

/-- A new message, in the memory as it is, with the writes. -/
def NetworkMessage.build (memory : Memory) (writes : List Write) : NetworkMessage :=
  run write { buffer := memory } writes

/-! ## What a write does -/

namespace NetworkMessage

/-- The position is behind the body, and the body within its bound. -/
structure Fine (msg : NetworkMessage) : Prop where
  position : msg.position = INITIAL_BUFFER_POSITION + msg.length
  bound : msg.position < MAX_BODY_LENGTH

variable {msg : NetworkMessage} {bytes : Bytes}

theorem copy_body (h : msg.position = INITIAL_BUFFER_POSITION + msg.length) (bytes : Bytes) :
    (msg.copy bytes).body = msg.body ++ bytes := by
  rw [body, copy, h]
  exact slice_put_append msg.buffer INITIAL_BUFFER_POSITION msg.length bytes

theorem Fine.copy (h : Fine msg) (hroom : bytes.length + msg.position < MAX_BODY_LENGTH) : Fine (msg.copy bytes) where
  position := by
    have hposition := h.position
    change msg.position + bytes.length = INITIAL_BUFFER_POSITION + (msg.length + bytes.length)
    omega
  bound := by
    change msg.position + bytes.length < MAX_BODY_LENGTH
    omega

theorem fine_new (memory : Memory) : Fine { buffer := memory } where
  position := rfl
  bound := by
    change INITIAL_BUFFER_POSITION < MAX_BODY_LENGTH
    decide

theorem canAdd_iff {n : ℕ} : msg.canAdd n = true ↔ n + msg.position < MAX_BODY_LENGTH := by
  simp [canAdd]

theorem Fine.add (h : Fine msg) (value : Bytes) : Fine (msg.add value) := by
  unfold NetworkMessage.add
  split
  · exact h
  · rename_i hroom
    exact h.copy (canAdd_iff.mp (by simpa using hroom))

theorem add_of_canAdd {value : Bytes} (hroom : msg.canAdd value.length = true) : msg.add value = msg.copy value := by
  rw [NetworkMessage.add, hroom]
  rfl

theorem Fine.write (h : Fine msg) (w : Write) : Fine (msg.write w) := by
  cases w with
  | addByte value => exact h.add [value]
  | add value => exact h.add value
  | addString value =>
    rw [NetworkMessage.write, addString]
    split
    · exact h
    · rename_i hroom
      simp only [Bool.or_eq_true, Bool.not_eq_true', not_or, Bool.not_eq_false] at hroom
      have hvalue := canAdd_iff.mp hroom.1
      have hlength : (encode 2 value.length).length = 2 := length_encode _ _
      have hfirst : msg.canAdd (encode 2 value.length).length = true := canAdd_iff.mpr (by omega)
      rw [add_of_canAdd hfirst]
      refine (h.copy (canAdd_iff.mp hfirst)).copy ?_
      change value.length + (msg.position + (encode 2 value.length).length) < MAX_BODY_LENGTH
      omega
  | addBytes bytes =>
    rw [NetworkMessage.write, addBytes]
    split
    · exact h
    · rename_i hroom
      simp only [Bool.or_eq_true, Bool.not_eq_true', not_or, Bool.not_eq_false] at hroom
      exact h.copy (canAdd_iff.mp hroom.1)

theorem fine_run (h : Fine msg) (writes : List Write) : Fine (run write msg writes) := by
  induction writes generalizing msg with
  | nil => exact h
  | cons w writes ih => exact ih (h.write w)

theorem fine_build (memory : Memory) (writes : List Write) : Fine (build memory writes) :=
  fine_run (fine_new memory) writes

/-! ## Writes that are not refused -/

/-- The write is not refused. -/
def Accepts (msg : NetworkMessage) : Write → Prop
  | .addByte _ => msg.canAdd 1 = true
  | .add value => msg.canAdd value.length = true
  | .addString value => msg.canAdd (value.length + 2) = true ∧ value.length ≤ 8192
  | .addBytes bytes => msg.canAdd bytes.length = true ∧ bytes.length ≤ 8192

instance (msg : NetworkMessage) : (w : Write) → Decidable (msg.Accepts w)
  | .addByte _ => inferInstanceAs (Decidable (_ = _))
  | .add _ => inferInstanceAs (Decidable (_ = _))
  | .addString _ => inferInstanceAs (Decidable (_ ∧ _))
  | .addBytes _ => inferInstanceAs (Decidable (_ ∧ _))

theorem body_write (h : Fine msg) {w : Write} (haccepts : msg.Accepts w) :
    (msg.write w).body = msg.body ++ w.bytes := by
  cases w with
  | addByte value =>
    have hroom : msg.canAdd [value].length = true := haccepts
    rw [write, addByte, add_of_canAdd hroom]
    exact copy_body h.position [value]
  | add value =>
    rw [write, add_of_canAdd haccepts]
    exact copy_body h.position value
  | addString value =>
    obtain ⟨hroom, hlength⟩ := haccepts
    have hfirst : msg.canAdd (encode 2 value.length).length = true := by
      have hvalue := canAdd_iff.mp hroom
      rw [length_encode]
      exact canAdd_iff.mpr (by omega)
    rw [write, addString, hroom, add_of_canAdd hfirst]
    simp only [Bool.not_true, Bool.false_or, decide_eq_true_eq, Nat.not_lt.mpr hlength, if_false]
    rw [copy_body (h.copy (canAdd_iff.mp hfirst)).position, copy_body h.position, List.append_assoc]
    rfl
  | addBytes bytes =>
    obtain ⟨hroom, hlength⟩ := haccepts
    rw [write, addBytes, hroom]
    simp only [Bool.not_true, Bool.false_or, decide_eq_true_eq, Nat.not_lt.mpr hlength, if_false]
    exact copy_body h.position bytes

theorem body_writes (h : Fine msg) {writes : List Write} (haccepts : Along write Accepts msg writes) :
    (run write msg writes).body = msg.body ++ writes.flatMap Write.bytes := by
  induction writes generalizing msg with
  | nil => exact (List.append_nil _).symm
  | cons w writes ih =>
    rw [run_cons, ih (h.write w) haccepts.2, body_write h haccepts.1, List.flatMap_cons, List.append_assoc]

theorem short_of_accepts {writes : List Write} (h : Along write Accepts msg writes) {value : Bytes}
    (hmem : .addString value ∈ writes) : value.length ≤ 8192 := by
  induction writes generalizing msg with
  | nil => cases hmem
  | cons w writes ih =>
    obtain hhere | htail := List.mem_cons.mp hmem
    · rw [← hhere] at h
      exact h.1.2
    · exact ih h.2 htail

end NetworkMessage
end ForgottenServer.Net
