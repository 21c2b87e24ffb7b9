import ForgottenServer.Net.Message
import ForgottenServer.Net.Xtea

/-! # Frames

Messages are gathered in an output buffer, which is sent when the next one does not
fit. What is sent gets its length in front, is encrypted in whole blocks and gets the
header of the cipher. -/
namespace ForgottenServer.Net
open ForgottenServer.Lib.Buffer ForgottenServer.Lib.Wire

inductive ChecksumMode
  | CHECKSUM_DISABLED
  | CHECKSUM_ADLER
  deriving DecidableEq

/-- The sums of `adlerChecksum` over one piece, before they are reduced. -/
def adlerPiece (data : Bytes) (sums : UInt32 × UInt32) : UInt32 × UInt32 :=
  data.foldl (fun (a, b) d => (a + d.toUInt32, b + (a + d.toUInt32))) sums

def adlerSums (data : Bytes) (sums : UInt32 × UInt32) : UInt32 × UInt32 :=
  if data.isEmpty then sums
  else
    let (a, b) := adlerPiece (data.take 5552) sums
    adlerSums (data.drop 5552) (a % 65521, b % 65521)
termination_by data.length
decreasing_by
  rename_i hdata
  simp only [List.isEmpty_iff] at hdata
  have := List.length_pos_iff.mpr hdata
  rw [List.length_drop]
  omega

def adlerChecksum (data : Bytes) : UInt32 :=
  if NETWORKMESSAGE_MAXSIZE < data.length then 0
  else
    let (a, b) := adlerSums data (1, 0)
    (b <<< 16) ||| a

structure OutputMessage extends NetworkMessage where
  outputBufferStart : ℕ := INITIAL_BUFFER_POSITION

namespace OutputMessage

/-- What `getOutputBuffer` and the length give to the socket. -/
def output (out : OutputMessage) : Bytes := slice out.buffer out.outputBufferStart out.length

def append (out : OutputMessage) (msg : NetworkMessage) : OutputMessage :=
  { out with toNetworkMessage := out.toNetworkMessage.copy msg.body }

def add_header (out : OutputMessage) (bytes : Bytes) : OutputMessage where
  buffer := put out.buffer (out.outputBufferStart - bytes.length) bytes
  length := out.length + bytes.length
  position := out.position
  outputBufferStart := out.outputBufferStart - bytes.length

def writeMessageLength (out : OutputMessage) : OutputMessage := out.add_header (encode 2 out.length)

def addCryptoHeader (out : OutputMessage) (mode : ChecksumMode) : OutputMessage :=
  (if mode = .CHECKSUM_ADLER then out.add_header (write32 (adlerChecksum out.output))
    else out).writeMessageLength

def pad (out : OutputMessage) : OutputMessage :=
  if out.length % 8 ≠ 0 then
    { out with toNetworkMessage := out.toNetworkMessage.addPaddingBytes (8 - out.length % 8) }
  else out

/-- `xtea::encrypt` goes on to the end of the last block. -/
def XTEA_encrypt (out : OutputMessage) (key : Xtea.Key) : OutputMessage :=
  let out := out.pad
  let blocks := slice out.buffer out.outputBufferStart ((out.length + 7) / 8 * 8)
  { out with buffer := put out.buffer out.outputBufferStart (Xtea.encrypt key blocks) }

end OutputMessage

structure Protocol where
  outputBuffer : Option OutputMessage := none
  /-- What was given to the connection, the first one first. -/
  sent : List OutputMessage := []
  key : Xtea.Key
  encryptionEnabled : Bool := false
  checksumMode : ChecksumMode := .CHECKSUM_ADLER
  rawMessages : Bool := false

namespace Protocol

def onSendMessage (p : Protocol) (msg : OutputMessage) : OutputMessage :=
  if p.rawMessages then msg
  else if p.encryptionEnabled then
    (msg.writeMessageLength.XTEA_encrypt p.key).addCryptoHeader p.checksumMode
  else msg.writeMessageLength

def send (p : Protocol) (msg : OutputMessage) : Protocol := { p with sent := p.sent ++ [msg] }

/-- The buffer to write to, and the protocol that holds it. A new one is made in `memory`. -/
def getOutputBuffer (p : Protocol) (memory : Memory) (size : ℕ) : OutputMessage × Protocol :=
  match p.outputBuffer with
  | none => ({ buffer := memory }, p)
  | some out =>
    if MAX_PROTOCOL_BODY_LENGTH < out.length + size then ({ buffer := memory }, p.send out)
      else (out, p)

def writeToOutputBuffer (p : Protocol) (memory : Memory) (msg : NetworkMessage) : Protocol :=
  let (out, p) := p.getOutputBuffer memory msg.length
  { p with outputBuffer := some (out.append msg) }

/-- What `OutputMessagePool::sendAll` does with the protocol. -/
def sendAll (p : Protocol) : Protocol :=
  match p.outputBuffer with
  | none => p
  | some out => { p.send out with outputBuffer := none }

end Protocol

/-! ## One frame -/

namespace OutputMessage

variable {out : OutputMessage} {bytes : Bytes}

theorem length_output (out : OutputMessage) : out.output.length = out.length := length_slice _ _ _

theorem output_add_header (h : bytes.length ≤ out.outputBufferStart) :
    (out.add_header bytes).output = bytes ++ out.output := by
  have hstart : out.outputBufferStart - bytes.length + bytes.length =
      out.outputBufferStart := by omega
  change slice (put out.buffer (out.outputBufferStart - bytes.length) bytes) (out.outputBufferStart - bytes.length)
    (out.length + bytes.length) = _
  rw [Nat.add_comm out.length, slice_put_prepend, hstart]
  rfl

theorem addCryptoHeader_adler (out : OutputMessage) : out.addCryptoHeader .CHECKSUM_ADLER =
    (out.add_header (write32 (adlerChecksum out.output))).writeMessageLength := rfl

theorem addCryptoHeader_disabled (out : OutputMessage) :
    out.addCryptoHeader .CHECKSUM_DISABLED = out.writeMessageLength := rfl

/-- The bytes in front of what is encrypted. -/
def headerLength : ChecksumMode → ℕ
  | .CHECKSUM_DISABLED => 2
  | .CHECKSUM_ADLER => 6

theorem output_addCryptoHeader (mode : ChecksumMode) (h : 6 ≤ out.outputBufferStart) :
    (out.addCryptoHeader mode).output.drop (headerLength mode) = out.output := by
  have hlength : ∀ n, (encode 2 n).length = 2 := length_encode 2
  have hchecksum : (write32 (adlerChecksum out.output)).length = 4 := length_encode 4 _
  cases mode with
  | CHECKSUM_DISABLED =>
    rw [addCryptoHeader_disabled, writeMessageLength, output_add_header (by rw [hlength]; omega)]
    exact List.drop_left' (hlength _)
  | CHECKSUM_ADLER =>
    have hroom : (encode 2 (out.add_header (write32 (adlerChecksum out.output))).length).length ≤
        (out.add_header (write32 (adlerChecksum out.output))).outputBufferStart := by
      change _ ≤ out.outputBufferStart - (write32 (adlerChecksum out.output)).length
      rw [hlength, hchecksum]
      omega
    rw [addCryptoHeader_adler, writeMessageLength, output_add_header hroom,
      output_add_header (by omega), ← List.append_assoc]
    exact List.drop_left' (by rw [List.length_append, hlength, hchecksum]; rfl)

theorem end_add_header (h : bytes.length ≤ out.outputBufferStart) :
    (out.add_header bytes).outputBufferStart + (out.add_header bytes).length = out.outputBufferStart + out.length := by
  change out.outputBufferStart - bytes.length + (out.length + bytes.length) = _
  omega

theorem end_addCryptoHeader (mode : ChecksumMode) (h : 6 ≤ out.outputBufferStart) :
    (out.addCryptoHeader mode).outputBufferStart + (out.addCryptoHeader mode).length =
      out.outputBufferStart + out.length := by
  have hlength : ∀ n, (encode 2 n).length = 2 := length_encode 2
  have hchecksum : (write32 (adlerChecksum out.output)).length = 4 := length_encode 4 _
  cases mode with
  | CHECKSUM_DISABLED =>
    rw [addCryptoHeader_disabled]
    exact end_add_header (by rw [hlength]; omega)
  | CHECKSUM_ADLER =>
    have hroom : 2 ≤ (out.add_header (write32 (adlerChecksum out.output))).outputBufferStart := by
      change 2 ≤ out.outputBufferStart - (write32 (adlerChecksum out.output)).length
      omega
    rw [addCryptoHeader_adler, writeMessageLength, end_add_header (by rw [hlength]; exact hroom),
      end_add_header (by omega)]

theorem pad_start (out : OutputMessage) : out.pad.outputBufferStart = out.outputBufferStart := by
  unfold pad
  split <;> rfl

theorem pad_of_refused (h : out.toNetworkMessage.canAdd (8 - out.length % 8) = false) : out.pad = out := by
  unfold pad
  split
  · rw [NetworkMessage.addPaddingBytes, h]
    rfl
  · rfl

/-- With room for it, padding fills the last block. -/
theorem pad_of_room (hposition : out.position = out.outputBufferStart + out.length)
    (hroom : out.length % 8 ≠ 0 → out.toNetworkMessage.canAdd (8 - out.length % 8) = true) :
    out.pad.length % 8 = 0 ∧ out.pad.length < out.length + 8 ∧ ∃ padding, out.pad.output = out.output ++ padding := by
  unfold pad
  split
  · rename_i hlast
    rw [NetworkMessage.addPaddingBytes, hroom hlast]
    have hlength : (List.replicate (8 - out.length % 8) (0x33 : UInt8)).length = 8 - out.length % 8 :=
      List.length_replicate
    refine ⟨?_, ?_, List.replicate (8 - out.length % 8) 0x33, ?_⟩
    · change (out.length + (List.replicate (8 - out.length % 8) (0x33 : UInt8)).length) % 8 = 0
      rw [hlength]
      omega
    · change out.length + (List.replicate (8 - out.length % 8) (0x33 : UInt8)).length < out.length + 8
      rw [hlength]
      omega
    · change slice (put out.buffer out.position _) out.outputBufferStart (out.length + _) = _
      rw [hposition]
      exact slice_put_append out.buffer out.outputBufferStart out.length _
  · rename_i hlast
    exact ⟨by omega, by omega, [], by rw [List.append_nil]⟩

theorem output_XTEA_encrypt (key : Xtea.Key) (h : out.pad.length % 8 = 0) :
    (out.XTEA_encrypt key).output = Xtea.encrypt key out.pad.output := by
  have hblocks : (out.pad.length + 7) / 8 * 8 = out.pad.length := by omega
  change slice (put out.pad.buffer out.pad.outputBufferStart
    (Xtea.encrypt key (slice out.pad.buffer out.pad.outputBufferStart ((out.pad.length + 7) / 8 * 8))))
    out.pad.outputBufferStart out.pad.length = _
  rw [hblocks]
  have hslice := slice_put out.pad.buffer out.pad.outputBufferStart (Xtea.encrypt key out.pad.output)
  rw [Xtea.length_encrypt, length_output] at hslice
  exact hslice

end OutputMessage

/-- What a client does with a frame: it decrypts what is behind the headers, reads the
inner length and takes that many bytes. -/
def receive (mode : ChecksumMode) (key : Xtea.Key) (frame : Bytes) : Option Bytes :=
  let encrypted := frame.drop (OutputMessage.headerLength mode)
  if encrypted.length % 8 ≠ 0 then none
  else
    match read 2 (Xtea.decrypt key encrypted) with
    | none => none
    | some (innerLength, data) =>
      if data.length < innerLength then none else some (data.take innerLength)

/-- The frame `out` brings the messages of `group`. -/
structure Brings (mode : ChecksumMode) (key : Xtea.Key) (out : OutputMessage)
    (group : List NetworkMessage) :
    Prop where
  blocks : (out.output.drop (OutputMessage.headerLength mode)).length % 8 = 0
  inside : out.outputBufferStart + out.length ≤ NETWORKMESSAGE_MAXSIZE
  contents : receive mode key out.output = some (group.map NetworkMessage.body).flatten

/-- An output buffer with the messages of `group` and nothing in front of them. -/
structure Packed (out : OutputMessage) (group : List NetworkMessage) : Prop where
  position : out.position = INITIAL_BUFFER_POSITION + out.length
  start : out.outputBufferStart = INITIAL_BUFFER_POSITION
  body : out.body = (group.map NetworkMessage.body).flatten

theorem receive_of_encrypted {mode : ChecksumMode} {key : Xtea.Key} {frame data padding : Bytes}
    (hframe : frame.drop (OutputMessage.headerLength mode) =
      Xtea.encrypt key (encode 2 data.length ++ data ++ padding))
    (hblocks : (frame.drop (OutputMessage.headerLength mode)).length % 8 = 0)
    (hlength : data.length < 256 ^ 2) :
    receive mode key frame = some data := by
  have hroom : ¬ (data ++ padding).length < data.length := by simp
  rw [receive, if_neg (by omega), hframe, Xtea.decrypt_encrypt, List.append_assoc, read_encode,
    Nat.mod_eq_of_lt hlength]
  dsimp only
  rw [if_neg hroom, List.take_left]

namespace Packed

variable {out : OutputMessage} {group : List NetworkMessage} {p : Protocol}

theorem output_writeMessageLength (h : Packed out group) :
    out.writeMessageLength.output = encode 2 out.length ++ (group.map NetworkMessage.body).flatten := by
  have hroom : (encode 2 out.length).length ≤ out.outputBufferStart := by
    rw [length_encode, h.start]
    decide
  rw [OutputMessage.writeMessageLength, OutputMessage.output_add_header hroom, ← h.body, OutputMessage.output, h.start]
  rfl

theorem writeMessageLength_start (h : Packed out group) : out.writeMessageLength.outputBufferStart = 6 := by
  change out.outputBufferStart - (encode 2 out.length).length = 6
  rw [h.start, length_encode]
  rfl

theorem writeMessageLength_length (out : OutputMessage) : out.writeMessageLength.length = out.length + 2 := by
  change out.length + (encode 2 out.length).length = _
  rw [length_encode]

theorem writeMessageLength_position (h : Packed out group) :
    out.writeMessageLength.position = out.writeMessageLength.outputBufferStart + out.writeMessageLength.length := by
  rw [h.writeMessageLength_start, writeMessageLength_length]
  change out.position = _
  rw [h.position, INITIAL_BUFFER_POSITION]
  omega

theorem canAdd_padding (h : Packed out group) (n : ℕ) :
    out.writeMessageLength.toNetworkMessage.canAdd n = true ↔ n + out.length < 24568 := by
  rw [NetworkMessage.canAdd_iff]
  change n + out.position < 24576 ↔ _
  rw [h.position, INITIAL_BUFFER_POSITION]
  omega

theorem six_le_start (h : Packed out group) (key : Xtea.Key) :
    6 ≤ (out.writeMessageLength.XTEA_encrypt key).outputBufferStart := by
  change 6 ≤ out.writeMessageLength.pad.outputBufferStart
  rw [OutputMessage.pad_start, h.writeMessageLength_start]

theorem onSendMessage_eq (out : OutputMessage) (hraw : p.rawMessages = false) (hencrypt : p.encryptionEnabled = true) :
    p.onSendMessage out = (out.writeMessageLength.XTEA_encrypt p.key).addCryptoHeader p.checksumMode := by
  rw [Protocol.onSendMessage, hraw, hencrypt]
  rfl

theorem encrypted (h : Packed out group) (hraw : p.rawMessages = false) (hencrypt : p.encryptionEnabled = true) :
    (p.onSendMessage out).output.drop (OutputMessage.headerLength p.checksumMode) =
      (out.writeMessageLength.XTEA_encrypt p.key).output := by
  rw [onSendMessage_eq out hraw hencrypt]
  exact OutputMessage.output_addCryptoHeader p.checksumMode (h.six_le_start p.key)

theorem brings (h : Packed out group) (hlength : out.length ≤ MAX_PROTOCOL_BODY_LENGTH) (hraw : p.rawMessages = false)
    (hencrypt : p.encryptionEnabled = true) : Brings p.checksumMode p.key (p.onSendMessage out) group := by
  have hbound : out.length ≤ 24566 := hlength
  have hroom : out.writeMessageLength.length % 8 ≠ 0 →
      out.writeMessageLength.toNetworkMessage.canAdd (8 - out.writeMessageLength.length % 8) =
        true := by
    intro hlast
    rw [h.canAdd_padding]
    rw [writeMessageLength_length] at hlast ⊢
    omega
  obtain ⟨hpadded, hshort, padding, hpadding⟩ :=
    OutputMessage.pad_of_room h.writeMessageLength_position hroom
  have hencrypted := OutputMessage.output_XTEA_encrypt p.key hpadded
  have hblocks : ((p.onSendMessage out).output.drop (OutputMessage.headerLength p.checksumMode)).length % 8 = 0 := by
    rw [h.encrypted hraw hencrypt, OutputMessage.length_output]
    exact hpadded
  have hdata : out.length = (group.map NetworkMessage.body).flatten.length := by
    rw [← h.body, NetworkMessage.body, length_slice]
  refine ⟨hblocks, ?_, ?_⟩
  · rw [onSendMessage_eq out hraw hencrypt, OutputMessage.end_addCryptoHeader _ (h.six_le_start p.key)]
    change out.writeMessageLength.pad.outputBufferStart + out.writeMessageLength.pad.length ≤ 24590
    rw [writeMessageLength_length] at hshort
    rw [OutputMessage.pad_start, h.writeMessageLength_start]
    omega
  · refine @receive_of_encrypted _ _ _ _ padding ?_ hblocks ?_
    · rw [h.encrypted hraw hencrypt, hencrypted, hpadding, h.output_writeMessageLength, ← hdata]
    · rw [← hdata]
      exact lt_of_le_of_lt hbound (by decide)

theorem not_blocks (h : Packed out group) (hlength : MAX_PROTOCOL_BODY_LENGTH < out.length)
    (hlast : out.length ≤ 24567) (hraw : p.rawMessages = false) (hencrypt : p.encryptionEnabled = true) :
    ((p.onSendMessage out).output.drop (OutputMessage.headerLength p.checksumMode)).length % 8 ≠ 0 := by
  have hbound : 24566 < out.length := hlength
  have hrefused : out.writeMessageLength.toNetworkMessage.canAdd (8 - out.writeMessageLength.length % 8) = false := by
    rw [← Bool.not_eq_true, h.canAdd_padding, writeMessageLength_length]
    omega
  rw [h.encrypted hraw hencrypt, OutputMessage.length_output]
  change out.writeMessageLength.pad.length % 8 ≠ 0
  rw [OutputMessage.pad_of_refused hrefused, writeMessageLength_length]
  omega

end Packed

/-! ## A session -/

/-- A message is written and given to the output buffer, or the pool sends all. -/
inductive Sending
  | write (memory scratch : Memory) (writes : List Write)
  | sendAll

def Sending.message : Sending → Option NetworkMessage
  | .write _ scratch writes => some (.build scratch writes)
  | .sendAll => none

/-- The messages that were written, the first one first. -/
def messages (events : List Sending) : List NetworkMessage := events.filterMap Sending.message

namespace Protocol

def step (p : Protocol) : Sending → Protocol
  | .write memory scratch writes => p.writeToOutputBuffer memory (.build scratch writes)
  | .sendAll => p.sendAll

/-- What the connection puts on the wire. -/
def frames (p : Protocol) : List OutputMessage := p.sent.map p.onSendMessage

/-- A protocol after the login, with nothing to send. -/
def start (mode : ChecksumMode) (key : Xtea.Key) : Protocol where
  key := key
  encryptionEnabled := true
  checksumMode := mode

/-- The session with everything sent at its end. -/
def session (mode : ChecksumMode) (key : Xtea.Key) (events : List Sending) : Protocol :=
  (events.foldl step (start mode key)).sendAll

end Protocol

/-- A buffer with the group, which is too long only for a message of its own. -/
def Gathers (out : OutputMessage) (group : List NetworkMessage) : Prop :=
  Packed out group ∧ (out.length ≤ MAX_PROTOCOL_BODY_LENGTH ∨ ∃ m, group = [m])

/-- What the buffers hold are the messages so far. -/
structure Buffered (mode : ChecksumMode) (key : Xtea.Key) (p : Protocol)
    (msgs : List NetworkMessage) : Prop where
  raw : p.rawMessages = false
  encrypted : p.encryptionEnabled = true
  mode : p.checksumMode = mode
  key : p.key = key
  buffers : ∃ groups last, List.Forall₂ Gathers p.sent groups ∧ List.Forall₂ Gathers p.outputBuffer.toList last ∧
    (groups ++ last).flatten = msgs

theorem packed_new (memory : Memory) : Packed { buffer := memory } [] where
  position := rfl
  start := rfl
  body := rfl

variable {out : OutputMessage} {group : List NetworkMessage} {mode : ChecksumMode} {key : Xtea.Key} {p : Protocol}

theorem Packed.append (h : Packed out group) (m : NetworkMessage) : Packed (out.append m) (group ++ [m]) where
  position := by
    change out.position + m.body.length = INITIAL_BUFFER_POSITION + (out.length + m.body.length)
    rw [h.position]
    omega
  start := h.start
  body := by
    change (out.toNetworkMessage.copy m.body).body = _
    rw [NetworkMessage.copy_body h.position, h.body]
    simp

theorem length_append (out : OutputMessage) (m : NetworkMessage) : (out.append m).length = out.length + m.length := by
  change out.length + m.body.length = _
  rw [NetworkMessage.body, length_slice]

theorem gathers_alone (memory : Memory) (m : NetworkMessage) :
    Gathers (({ buffer := memory } : OutputMessage).append m) [m] :=
  ⟨(packed_new memory).append m, .inr ⟨m, rfl⟩⟩

theorem writeToOutputBuffer_cases (p : Protocol) (memory : Memory) (m : NetworkMessage) :
    (p.writeToOutputBuffer memory m = { p with
        sent := p.sent ++ p.outputBuffer.toList
        outputBuffer := some (({ buffer := memory } : OutputMessage).append m) }) ∨
    ∃ out, p.outputBuffer = some out ∧ out.length + m.length ≤ MAX_PROTOCOL_BODY_LENGTH ∧
      p.writeToOutputBuffer memory m = { p with outputBuffer := some (out.append m) } := by
  rw [Protocol.writeToOutputBuffer, Protocol.getOutputBuffer]
  cases hbuffer : p.outputBuffer with
  | none =>
    refine .inl ?_
    dsimp only [Option.toList]
    rw [List.append_nil]
  | some out =>
    dsimp only
    split
    · exact .inl rfl
    · rename_i hroom
      exact .inr ⟨out, rfl, by omega, rfl⟩

namespace Buffered

variable {msgs : List NetworkMessage}

theorem write (h : Buffered mode key p msgs) (memory : Memory) (m : NetworkMessage) :
    Buffered mode key (p.writeToOutputBuffer memory m) (msgs ++ [m]) := by
  obtain ⟨groups, last, hgroups, hlast, hflat⟩ := h.buffers
  obtain hnew | ⟨out, hout, hroom, hold⟩ := writeToOutputBuffer_cases p memory m
  · rw [hnew]
    refine ⟨h.raw, h.encrypted, h.mode, h.key, groups ++ last, [[m]], ?_, ?_, ?_⟩
    · exact List.rel_append hgroups hlast
    · exact .cons (gathers_alone memory m) .nil
    · rw [List.flatten_append, hflat]
      rfl
  · rw [hold]
    rw [hout] at hlast
    cases hlast with
    | cons hgathers hnil =>
      rename_i group rest
      cases hnil
      refine ⟨h.raw, h.encrypted, h.mode, h.key, groups, [group ++ [m]], hgroups, ?_, ?_⟩
      · refine .cons ⟨hgathers.1.append m, .inl ?_⟩ .nil
        rw [length_append]
        exact hroom
      · rw [← hflat]
        simp

theorem sendAll (h : Buffered mode key p msgs) : Buffered mode key p.sendAll msgs ∧ p.sendAll.outputBuffer = none := by
  obtain ⟨groups, last, hgroups, hlast, hflat⟩ := h.buffers
  unfold Protocol.sendAll
  cases hbuffer : p.outputBuffer with
  | none => exact ⟨h, hbuffer⟩
  | some out =>
    rw [hbuffer] at hlast
    refine ⟨⟨h.raw, h.encrypted, h.mode, h.key, groups ++ last, [], ?_, .nil, ?_⟩, rfl⟩
    · exact List.rel_append hgroups hlast
    · rw [List.append_nil, hflat]

theorem step (h : Buffered mode key p msgs) (e : Sending) :
    Buffered mode key (p.step e) (msgs ++ e.message.toList) := by
  cases e with
  | write memory scratch writes => exact h.write memory _
  | sendAll =>
    change Buffered mode key p.sendAll (msgs ++ [])
    rw [List.append_nil]
    exact h.sendAll.1

theorem run (h : Buffered mode key p msgs) (events : List Sending) :
    Buffered mode key (events.foldl Protocol.step p) (msgs ++ messages events) := by
  induction events generalizing p msgs with
  | nil =>
    change Buffered mode key p (msgs ++ [])
    rwa [List.append_nil]
  | cons e events ih =>
    have hmessages : messages (e :: events) = e.message.toList ++ messages events := by
      cases e <;> rfl
    rw [List.foldl_cons, hmessages, ← List.append_assoc]
    exact ih (h.step e)

end Buffered

theorem session_start (mode : ChecksumMode) (key : Xtea.Key) : Buffered mode key (.start mode key) [] :=
  ⟨rfl, rfl, rfl, rfl, [], [], .nil, .nil, rfl⟩

theorem length_build (memory : Memory) (writes : List Write) :
    (NetworkMessage.build memory writes).length ≤ MAX_PROTOCOL_BODY_LENGTH + 1 := by
  have hfine := NetworkMessage.fine_build memory writes
  have hbound := hfine.bound
  rw [hfine.position] at hbound
  change INITIAL_BUFFER_POSITION + _ < 24576 at hbound
  change _ ≤ 24567
  rw [INITIAL_BUFFER_POSITION] at hbound
  omega

theorem length_messages {events : List Sending} {m : NetworkMessage} (h : m ∈ messages events) :
    m.length ≤ MAX_PROTOCOL_BODY_LENGTH + 1 := by
  obtain ⟨e, -, hmessage⟩ := List.mem_filterMap.mp h
  cases e with
  | write memory scratch writes =>
    cases hmessage
    exact length_build scratch writes
  | sendAll => cases hmessage

theorem Packed.length_le (h : Packed out group) {m : NetworkMessage} (hm : m ∈ group) : m.length ≤ out.length := by
  have hbody : ∀ x : NetworkMessage, x.body.length = x.length := fun x => by
    rw [NetworkMessage.body, length_slice]
  rw [← hbody out.toNetworkMessage, ← hbody m, h.body]
  exact (List.sublist_flatten_of_mem (List.mem_map_of_mem hm)).length_le

theorem exists_partner {α β : Type} {R : α → β → Prop} {as : List α} {bs : List β} (h : List.Forall₂ R as bs) :
    (∀ a ∈ as, ∃ b ∈ bs, R a b) ∧ ∀ b ∈ bs, ∃ a ∈ as, R a b := by
  induction h with
  | nil => simp
  | cons hfirst hrest ih =>
    rename_i a b as bs
    refine ⟨fun x hx => ?_, fun y hy => ?_⟩
    · obtain rfl | hx := List.mem_cons.mp hx
      · exact ⟨b, List.mem_cons_self, hfirst⟩
      · obtain ⟨y, hy, hxy⟩ := ih.1 x hx
        exact ⟨y, List.mem_cons_of_mem b hy, hxy⟩
    · obtain rfl | hy := List.mem_cons.mp hy
      · exact ⟨a, List.mem_cons_self, hfirst⟩
      · obtain ⟨x, hx, hxy⟩ := ih.2 y hy
        exact ⟨x, List.mem_cons_of_mem a hx, hxy⟩

theorem Gathers.length_le {n : ℕ} (h : Gathers out group) (hn : MAX_PROTOCOL_BODY_LENGTH ≤ n)
    (hshort : ∀ m ∈ group, m.length ≤ n) : out.length ≤ n := by
  obtain ⟨hpacked, hlength | ⟨m, rfl⟩⟩ := h
  · exact hlength.trans hn
  · have hbody := congrArg List.length hpacked.body
    simp only [List.map_cons, List.map_nil, List.flatten_cons, List.flatten_nil, List.append_nil,
      NetworkMessage.body, length_slice] at hbody
    rw [hbody]
    exact hshort m List.mem_cons_self

theorem Buffered.brings {groups : List (List NetworkMessage)} {outs : List OutputMessage}
    (hraw : p.rawMessages = false) (hencrypted : p.encryptionEnabled = true) (h : List.Forall₂ Gathers outs groups)
    (hshort : ∀ group ∈ groups, ∀ m ∈ group, m.length ≤ MAX_PROTOCOL_BODY_LENGTH) :
    List.Forall₂ (Brings p.checksumMode p.key) (outs.map p.onSendMessage) groups := by
  induction h with
  | nil => exact .nil
  | cons hfirst hrest ih =>
    rename_i out group outs groups
    have hlength := hfirst.length_le (Nat.le_refl _) (hshort group List.mem_cons_self)
    exact .cons (hfirst.1.brings hlength hraw hencrypted) (ih fun g hg => hshort g (List.mem_cons_of_mem group hg))

theorem session_end (mode : ChecksumMode) (key : Xtea.Key) (events : List Sending) :
    Buffered mode key (.session mode key events) (messages events) ∧ ∃ groups,
      List.Forall₂ Gathers (Protocol.session mode key events).sent groups ∧ groups.flatten = messages events := by
  have hrun := (session_start mode key).run events
  rw [List.nil_append] at hrun
  obtain ⟨hsession, hempty⟩ := hrun.sendAll
  obtain ⟨groups, last, hgroups, hlast, hflat⟩ := hsession.buffers
  rw [hempty] at hlast
  cases hlast
  rw [List.append_nil] at hflat
  exact ⟨hsession, groups, hgroups, hflat⟩

/-- A message that is too long is in a frame that does not end with a block. -/
theorem short_of_brings {events : List Sending} {brought : List (List NetworkMessage)}
    (h : List.Forall₂ (Brings mode key) (Protocol.session mode key events).frames brought) :
    ∀ m ∈ messages events, m.length ≤ MAX_PROTOCOL_BODY_LENGTH := by
  intro m hm
  obtain ⟨hsession, groups, hgroups, hflat⟩ := session_end mode key events
  by_contra hlong
  rw [← hflat] at hm
  obtain ⟨group, hgroup, hmember⟩ := List.mem_flatten.mp hm
  obtain ⟨out, hout, hgathers⟩ := (exists_partner hgroups).2 group hgroup
  have hlonger := hgathers.1.length_le hmember
  have hbound : out.length ≤ MAX_PROTOCOL_BODY_LENGTH + 1 := by
    refine hgathers.length_le (Nat.le_succ _) fun x hx => ?_
    have hx : x ∈ messages events := by
      rw [← hflat]
      exact List.mem_flatten_of_mem hgroup hx
    exact length_messages hx
  have hblocks := hgathers.1.not_blocks (by omega) hbound hsession.raw hsession.encrypted
  obtain ⟨other, -, hother⟩ := (exists_partner h).1 _ (List.mem_map_of_mem hout)
  rw [hsession.mode] at hblocks
  exact hblocks hother.blocks

/-- The frames of a session bring its messages, each one whole and in their order,
exactly when none of them has the one length behind the limit of the buffer. -/
theorem frames_bring_messages_iff (mode : ChecksumMode) (key : Xtea.Key) (events : List Sending) :
    (∃ groups, groups.flatten = messages events ∧
      List.Forall₂ (Brings mode key) (Protocol.session mode key events).frames groups) ↔
    ∀ m ∈ messages events, m.length ≤ MAX_PROTOCOL_BODY_LENGTH := by
  constructor
  · rintro ⟨brought, -, hbrings⟩
    exact short_of_brings hbrings
  · intro hshort
    obtain ⟨hsession, groups, hgroups, hflat⟩ := session_end mode key events
    refine ⟨groups, hflat, ?_⟩
    have hbrings := Buffered.brings hsession.raw hsession.encrypted hgroups fun group hgroup m hm => by
      apply hshort m
      rw [← hflat]
      exact List.mem_flatten_of_mem hgroup hm
    rw [hsession.mode, hsession.key] at hbrings
    exact hbrings

/-- The longest message there is: 8192, 8192 and 8183 bytes. -/
def longest : List Write :=
  [.addBytes (List.replicate 8192 0), .addBytes (List.replicate 8192 0), .addBytes (List.replicate 8183 0)]

theorem length_build_three (memory : Memory) {a b c : Bytes} (ha : a.length = 8192) (hb : b.length = 8192)
    (hc : c.length = 8183) : (NetworkMessage.build memory [.addBytes a, .addBytes b, .addBytes c]).length = 24567 := by
  simp [NetworkMessage.build, NetworkMessage.write, NetworkMessage.addBytes, NetworkMessage.canAdd,
    NetworkMessage.copy, MAX_BODY_LENGTH, NETWORKMESSAGE_MAXSIZE,
    INITIAL_BUFFER_POSITION, ha, hb, hc]

/-- Its frame ends in half a block: the padding is refused by the check for messages. -/
theorem longest_is_not_padded :
    let key : Xtea.Key := fun _ => 0
    let events : List Sending := [.write (fun _ => 0) (fun _ => 0) longest]
    ¬ ∃ groups, groups.flatten = messages events ∧ List.Forall₂ (Brings .CHECKSUM_ADLER key)
        (Protocol.session .CHECKSUM_ADLER key events).frames groups := by
  rintro key events ⟨groups, -, hbrings⟩
  have hshort := short_of_brings hbrings (.build (fun _ => 0) longest) List.mem_cons_self
  rw [longest, length_build_three _ List.length_replicate List.length_replicate List.length_replicate] at hshort
  exact absurd hshort (by decide)

end ForgottenServer.Net
