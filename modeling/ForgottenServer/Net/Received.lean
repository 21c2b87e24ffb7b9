import ForgottenServer.Lib.Machine
import ForgottenServer.Net.Framing

/-! # Received packets

A packet is read from the buffer of its connection, where the bytes of earlier packets
still lie behind it. An access outside the buffer is a fault. -/
namespace ForgottenServer.Net
open ForgottenServer.Lib ForgottenServer.Lib.Buffer ForgottenServer.Lib.Machine ForgottenServer.Lib.Wire

/-- A message that bytes are read from. -/
structure Received extends NetworkMessage where
  overrun : Bool := false

/-! ## Reads -/

/-- What bytes are taken from, one piece after the other. -/
structure Source (σ : Type) where
  take : ℕ → σ → Option (Bytes × σ)
  overrun : σ → Bool

namespace Received
variable (msg : Received)

def canRead (size : ℕ) : Bool :=
  !(msg.length + 8 < msg.position + size || NETWORKMESSAGE_MAXSIZE ≤ msg.position + size)

def region (start n : ℕ) : Option Bytes :=
  if start + n ≤ NETWORKMESSAGE_MAXSIZE then some (slice msg.buffer start n) else none

/-- What all reads do to get `size` bytes: nothing comes from one that is refused. -/
def take (size : ℕ) : Option (Bytes × Received) :=
  if !msg.canRead size then some ([], { msg with overrun := true })
  else (msg.region msg.position size).map fun bytes =>
    (bytes, { msg with position := msg.position + size })

def skipBytes (count : ℤ) : Received :=
  { msg with position := ((msg.position + count) % 2 ^ 16).toNat }

end Received

def received : Source Received := ⟨fun size msg => msg.take size, Received.overrun⟩

inductive Answer
  | number (v : ℕ)
  | string (s : Bytes)
  | position (x y z : ℕ)

section Reads
variable {σ : Type} (source : Source σ)

/-- `get<T>` for a type of `size` bytes: zero if they are refused. -/
def get (size : ℕ) : StateT σ Option ℕ := fun s =>
  (source.take size s).map fun (bytes, s) => (decode bytes, s)

def getByte : StateT σ Option ℕ := get source 1

def getString (stringLen : ℕ) : StateT σ Option Bytes := do
  let stringLen ← if stringLen = 0 then get source 2 else pure stringLen
  source.take stringLen

def getPosition : StateT σ Option Answer := do
  let x ← get source 2
  let y ← get source 2
  let z ← getByte source
  return .position x y z

end Reads

inductive Read
  | getByte
  | get (size : ℕ)
  | getString (stringLen : UInt16)
  | getPosition

def Read.exec {σ : Type} (source : Source σ) : Read → StateT σ Option Answer
  | .getByte => .number <$> Net.getByte source
  | .get size => .number <$> Net.get source size
  | .getString stringLen => .string <$> Net.getString source stringLen.toNat
  | .getPosition => Net.getPosition source

/-- A handler's read: its answer and the flag behind it, or a fault. -/
def Source.step {σ : Type} (source : Source σ) (s : Option σ) (r : Read) : Option σ × Option (Answer × Bool) :=
  match s.bind (r.exec source) with
  | none => (none, none)
  | some (a, s) => (some s, some (a, source.overrun s))

/-! ## Packets -/

/-- What `parseHeader` makes of a length. -/
def acceptsSize (size : ℕ) : Bool := !(size = 0 || NETWORKMESSAGE_MAXSIZE - 16 ≤ size)

structure Packet where
  body : Bytes
  accepted : acceptsSize body.length = true

/-- The first packet of a connection goes to a protocol that is there already or is made by
one of the services, by identifier and whether they are checksummed. A later one goes to a
protocol that decrypts it; earlier packets may have set the flag. -/
inductive Kind
  | first (services : Option (List (UInt8 × Bool)))
  | later (key : Xtea.Key) (overrun : Bool)

namespace Received

/-- The header and the body are read into the buffer, and the flag stays. -/
def arrive (memory : Memory) (overrun : Bool) (body : Bytes) : Received where
  buffer := put (put memory 0 (encode 2 body.length)) 2 body
  length := body.length + 2
  position := 2
  overrun := overrun

variable (msg : Received)

/-- The checksum of what comes behind the one that was sent. -/
def computedChecksum : Option UInt32 :=
  let len : ℤ := msg.length - msg.position - 4
  if 0 < len then (msg.region (msg.position + 4) len.toNat).map adlerChecksum else some 0

/-- The checksum at the beginning of `parsePacket`: if it is not right, it is taken for data. -/
def checkChecksum : Option (Bool × Received) := do
  let checksum ← msg.computedChecksum
  let (recvChecksum, msg) ← get received 4 msg
  if recvChecksum = checksum.toNat then some (true, msg) else some (false, msg.skipBytes (-4))

/-- `ServicePort::make_protocol`: whether there is one. -/
def makeProtocol (services : List (UInt8 × Bool)) (checksummed : Bool) : Option (Bool × Received) := do
  let (protocolID, msg) ← getByte received msg
  let found := services.any fun (identifier, isChecksummed) =>
    protocolID = identifier.toNat && ((checksummed && isChecksummed) || !isChecksummed)
  some (found, msg)

def XTEA_decrypt (key : Xtea.Key) : Option (Bool × Received) := do
  if ((msg.length : ℤ) - 6) % 8 ≠ 0 then some (false, msg)
  else
    let data ← msg.region msg.position (msg.length - 6)
    let msg := { msg with buffer := put msg.buffer msg.position (Xtea.decrypt key data) }
    let (innerLength, msg) ← get received 2 msg
    if msg.length < innerLength + 8 then some (false, msg)
    else some (true, { msg with length := innerLength })

/-- What `parsePacket` does behind the checksum, up to the handler: that gets the message, unless
it is dropped. -/
def handOver (checksummed : Bool) : Kind → Option (Option Received)
  | .first none => some (some (msg.skipBytes 1))
  | .first (some services) => do
    let (found, msg) ← msg.makeProtocol services checksummed
    some (if found then some msg else none)
  | .later key _ => do
    let (decrypted, msg) ← msg.XTEA_decrypt key
    some (if decrypted then some msg else none)

def parsePacket (kind : Kind) : Option (Option Received) := do
  let (checksummed, msg) ← msg.checkChecksum
  msg.handOver checksummed kind

end Received

def Kind.overrun : Kind → Bool
  | .first _ => false
  | .later _ overrun => overrun

def Kind.encrypted : Kind → Bool
  | .first _ => false
  | .later _ _ => true

/-- A packet that arrives where `memory` was, up to the handler. -/
def Packet.parse (packet : Packet) (kind : Kind) (memory : Memory) : Option (Option Received) :=
  (Received.arrive memory kind.overrun packet.body).parsePacket kind

/-! ## Only what was received

What reading is for: bytes are taken from a segment of the packet until there are not enough
left. -/

structure Segment where
  bytes : Bytes
  overrun : Bool

def Segment.take (size : ℕ) (s : Segment) : Option (Bytes × Segment) :=
  if size ≤ s.bytes.length then some (s.bytes.take size, { s with bytes := s.bytes.drop size })
  else some ([], { s with overrun := true })

def segment : Source Segment := ⟨Segment.take, Segment.overrun⟩

/-- The checksum in front of the data of a body is right. -/
def checksummed (body : Bytes) : Bool :=
  decode (body.take 4) = (if 4 < body.length then adlerChecksum (body.drop 4) else 0).toNat

/-- The body with the blocks decrypted: they come behind the checksum if there is one, else four
bytes are left behind them. -/
def Kind.opened (body : Bytes) : Kind → Bytes
  | .first _ => body
  | .later key _ =>
    if checksummed body then body.take 4 ++ Xtea.decrypt key (body.drop 4)
    else Xtea.decrypt key (body.take (body.length - 4)) ++ body.drop (body.length - 4)

/-- Whatever is read, the answers are those of a segment of `content`: they tell nothing about
other bytes, a read that goes past it gets zero or the empty string and sets the flag, and
none is a fault. -/
def OnlyReceived (content : Bytes) (msg : Received) : Prop :=
  ∃ before bytes after, content = before ++ bytes ++ after ∧ ∀ reads, answers received.step (some msg) reads =
      answers segment.step (some ⟨bytes, msg.overrun⟩) reads

/-! ## Reading inside the segment -/

/-- What is left to read of the message is what is left of the segment. -/
structure Received.Inside (msg : Received) (s : Segment) : Prop where
  position : msg.position ≤ msg.length + 8
  length : msg.length + 8 < NETWORKMESSAGE_MAXSIZE
  bytes : s.bytes = slice msg.buffer msg.position (msg.length + 8 - msg.position)
  overrun : s.overrun = msg.overrun

section Inside
variable {msg : Received} {s : Segment}

theorem take_slice (b : Memory) (start : ℕ) {m n : ℕ} (h : m ≤ n) : (slice b start n).take m = slice b start m := by
  obtain ⟨k, rfl⟩ := Nat.exists_eq_add_of_le h
  rw [slice_add]
  exact List.take_left' (length_slice b start m)

theorem drop_slice (b : Memory) (start m n : ℕ) : (slice b start (m + n)).drop m = slice b (start + m) n := by
  rw [slice_add]
  exact List.drop_left' (length_slice b start m)

theorem Received.take_granted {size : ℕ} (h : msg.position + size ≤ msg.length + 8)
    (hbuffer : msg.position + size < NETWORKMESSAGE_MAXSIZE) :
    msg.take size = some (slice msg.buffer msg.position size, { msg with position := msg.position + size }) := by
  have hcan : msg.canRead size = true := by
    simp only [canRead, Bool.not_eq_true', Bool.or_eq_false_iff, decide_eq_false_iff_not]
    omega
  rw [Received.take, hcan, region, if_pos hbuffer.le]
  rfl

theorem Received.take_refused {size : ℕ} (h : msg.length + 8 < msg.position + size) :
    msg.take size = some ([], { msg with overrun := true }) := by
  have hcan : msg.canRead size = false := by
    simp only [canRead, Bool.not_eq_false', Bool.or_eq_true, decide_eq_true_iff]
    exact .inl h
  rw [Received.take, hcan]
  rfl

theorem Received.Inside.take (h : msg.Inside s) (size : ℕ) :
    ∃ bytes msg' s', msg.take size = some (bytes, msg') ∧ s.take size = some (bytes, s') ∧ msg'.Inside s' := by
  obtain ⟨hposition, hlength, hbytes, hoverrun⟩ := h
  have hcount : s.bytes.length = msg.length + 8 - msg.position := by rw [hbytes, length_slice]
  by_cases hsize : size ≤ msg.length + 8 - msg.position
  · obtain ⟨rest, hrest⟩ := Nat.exists_eq_add_of_le hsize
    refine ⟨_, _, { s with bytes := s.bytes.drop size }, take_granted (by omega) (by omega), ?_,
      ?_, hlength, ?_, hoverrun⟩
    · rw [Segment.take, if_pos (by omega), hbytes, take_slice _ _ hsize]
    · dsimp only
      omega
    · dsimp only
      rw [hbytes, hrest, drop_slice]
      congr 1
      omega
  · refine ⟨_, _, { s with overrun := true }, take_refused (by omega), ?_, hposition, hlength,
      hbytes, rfl⟩
    rw [Segment.take, if_neg (by omega)]

theorem agree_get (size : ℕ) : Agree Received.Inside (get received size) (get segment size) := by
  intro msg s h
  obtain ⟨bytes, msg', s', hmsg, hs, h'⟩ := h.take size
  refine ⟨decode bytes, msg', s', ?_, ?_, h'⟩
  · change (msg.take size).map _ = _
    rw [hmsg]
    rfl
  · change (s.take size).map _ = _
    rw [hs]
    rfl

theorem agree_getString (stringLen : ℕ) :
    Agree Received.Inside (getString received stringLen) (getString segment stringLen) := by
  have htake : ∀ size, Agree Received.Inside (received.take size) (segment.take size) :=
    fun size _ _ h => h.take size
  unfold getString
  split
  · exact (agree_get 2).bind htake
  · exact (agree_pure stringLen).bind htake

theorem agree_getPosition : Agree Received.Inside (getPosition received) (getPosition segment) :=
  (agree_get 2).bind fun _ => (agree_get 2).bind fun _ => (agree_get 1).bind fun _ => agree_pure _

theorem agree_exec (r : Read) : Agree Received.Inside (r.exec received) (r.exec segment) := by
  cases r with
  | getByte => exact (agree_get 1).map Answer.number
  | get size => exact (agree_get size).map Answer.number
  | getString stringLen => exact (agree_getString stringLen.toNat).map Answer.string
  | getPosition => exact agree_getPosition

theorem Source.step_eq {σ : Type} {source : Source σ} {r : Read} {a : Answer} {t t' : σ}
    (h : r.exec source t = some (a, t')) : source.step (some t) r = (some t', some (a, source.overrun t')) := by
  rw [Source.step, Option.bind_some, h]

theorem Received.Inside.answers (h : msg.Inside s) (reads : List Read) :
    Machine.answers received.step (some msg) reads = Machine.answers segment.step (some s) reads := by
  refine answers_of_bisim (R := fun m t => ∃ msg s, m = some msg ∧ t = some s ∧ msg.Inside s) ?_
    ⟨msg, s, rfl, rfl, h⟩ reads
  rintro - - r ⟨msg, s, rfl, rfl, h⟩
  obtain ⟨a, msg', s', hmsg, hs, h'⟩ := agree_exec r msg s h
  have hflag : received.overrun msg' = segment.overrun s' := h'.overrun.symm
  rw [Source.step_eq hmsg, Source.step_eq hs, hflag]
  exact ⟨rfl, msg', s', rfl, rfl, h'⟩

end Inside

/-! ## Arriving -/

section Arrive
variable {body : Bytes} {memory : Memory} {overrun : Bool}

theorem size_of_accepted (h : acceptsSize body.length = true) : body.length + 16 < NETWORKMESSAGE_MAXSIZE := by
  simp only [acceptsSize, Bool.not_eq_true', Bool.or_eq_false_iff, decide_eq_false_iff_not] at h
  unfold NETWORKMESSAGE_MAXSIZE at h ⊢
  omega

theorem slice_arrive : slice (Received.arrive memory overrun body).buffer 2 body.length = body :=
  slice_put _ 2 body

theorem get_granted {msg : Received} {size : ℕ} (h : msg.position + size ≤ msg.length + 8)
    (hbuffer : msg.position + size < NETWORKMESSAGE_MAXSIZE) :
    get received size msg = some (decode (slice msg.buffer msg.position size),
      { msg with position := msg.position + size }) := by
  change (msg.take size).map _ = _
  rw [Received.take_granted h hbuffer]
  rfl

theorem computedChecksum_arrive (h : acceptsSize body.length = true) :
    (Received.arrive memory overrun body).computedChecksum =
      some (if 4 < body.length then adlerChecksum (body.drop 4) else 0) := by
  have hsize := size_of_accepted h
  have hlen : (((Received.arrive memory overrun body).length : ℤ) -
      (Received.arrive memory overrun body).position - 4) = (body.length : ℤ) - 4 := by
    simp only [Received.arrive]
    omega
  rw [Received.computedChecksum, hlen]
  by_cases hlong : 4 < body.length
  · obtain ⟨n, hn⟩ := Nat.exists_eq_add_of_lt hlong
    have hdata : slice (Received.arrive memory overrun body).buffer 6 ((body.length : ℤ) - 4).toNat =
        body.drop 4 := by
      have hdrop := drop_slice (Received.arrive memory overrun body).buffer 2 4 (n + 1)
      rw [← Nat.add_assoc, ← hn, slice_arrive] at hdrop
      rw [hdrop]
      congr 1
      omega
    rw [if_pos (by omega), if_pos hlong, Received.region, if_pos]
    · change some (adlerChecksum (slice _ 6 _)) = _
      rw [hdata]
    · simp only [Received.arrive]
      omega
  · rw [if_neg (by omega), if_neg hlong]

/-- The server's own reads are inside the buffer. A packet of less than four bytes is checked with
bytes that lie behind it. -/
theorem checkChecksum_arrive (h : acceptsSize body.length = true) :
    ∃ c : Bool, (Received.arrive memory overrun body).checkChecksum =
        some (c, { Received.arrive memory overrun body with position := if c then 6 else 2 }) ∧
      (4 ≤ body.length → c = checksummed body) := by
  have hsize := size_of_accepted h
  have hget : get received 4 (Received.arrive memory overrun body) = _ :=
    get_granted (by simp only [Received.arrive]; omega) (by simp only [Received.arrive]; omega)
  refine ⟨decide (decode (slice (Received.arrive memory overrun body).buffer 2 4) =
    (if 4 < body.length then adlerChecksum (body.drop 4) else 0).toNat), ?_, fun hfour => ?_⟩
  · rw [Received.checkChecksum, computedChecksum_arrive h]
    generalize (if 4 < body.length then adlerChecksum (body.drop 4) else 0) = checksum
    simp only [Option.bind_eq_bind, Option.bind_some]
    rw [hget]
    by_cases hright : decode (slice (Received.arrive memory overrun body).buffer 2 4) = checksum.toNat
    · rw [decide_eq_true hright]
      exact if_pos hright
    · rw [decide_eq_false hright]
      exact if_neg hright
  · have hfront : slice (Received.arrive memory overrun body).buffer 2 4 = body.take 4 := by
      rw [← take_slice _ _ hfour, slice_arrive]
    rw [checksummed, hfront]

end Arrive

/-! ## First packets -/

section First
variable {packet : Packet} {memory : Memory} {services : Option (List (UInt8 × Bool))} {msg : Received}

theorem makeProtocol_granted {msg : Received} (h : msg.position < msg.length + 8)
    (hbuffer : msg.position + 1 < NETWORKMESSAGE_MAXSIZE) (services : List (UInt8 × Bool)) (checksummed : Bool) :
    ∃ found, msg.makeProtocol services checksummed = some (found, { msg with position := msg.position + 1 }) := by
  have hbyte : getByte received msg = _ := get_granted h hbuffer
  rw [Received.makeProtocol, hbyte]
  exact ⟨_, rfl⟩

/-- The handler of a first packet gets the whole length. -/
theorem handOver_first {msg : Received} (hposition : msg.position ≤ 6) (hlength : 2 ≤ msg.length)
    (checksummed : Bool) (services : Option (List (UInt8 × Bool))) :
    ∃ outcome, msg.handOver checksummed (.first services) = some outcome ∧ ∀ msg', outcome = some msg' →
        msg'.length = msg.length ∧ msg'.position ≤ 7 ∧ msg'.overrun = msg.overrun := by
  cases services with
  | none =>
    refine ⟨_, rfl, ?_⟩
    rintro msg' ⟨⟩
    refine ⟨rfl, ?_, rfl⟩
    simp only [Received.skipBytes]
    omega
  | some services =>
    have hbuffer : msg.position + 1 < NETWORKMESSAGE_MAXSIZE := by
      unfold NETWORKMESSAGE_MAXSIZE
      omega
    obtain ⟨found, hfound⟩ := makeProtocol_granted (by omega) hbuffer services checksummed
    refine ⟨if found then some { msg with position := msg.position + 1 } else none, ?_, ?_⟩
    · rw [Received.handOver, hfound]
      rfl
    · intro msg' hmsg'
      split at hmsg'
      · cases hmsg'
        exact ⟨rfl, Nat.succ_le_succ hposition, rfl⟩
      · cases hmsg'

theorem getBytes_granted {msg : Received} {n : ℕ} (h : msg.position + n ≤ msg.length + 8)
    (hbuffer : msg.length + 8 < NETWORKMESSAGE_MAXSIZE) (hoverrun : msg.overrun = false) :
    ∀ a ∈ answers received.step (some msg) (List.replicate n Read.getByte), ∃ v, a = some (.number v, false) := by
  induction n generalizing msg with
  | zero => exact fun a ha => nomatch ha
  | succ n ih =>
    have hbyte : Read.exec received .getByte msg = some (.number (decode (slice msg.buffer msg.position 1)),
          { msg with position := msg.position + 1 }) := by
      change (get received 1 msg).bind (fun x => some (Answer.number x.1, x.2)) = _
      rw [get_granted (by omega) (by omega)]
      rfl
    intro a ha
    rw [List.replicate_succ, answers, Source.step_eq hbyte] at ha
    rcases List.mem_cons.mp ha with rfl | ha
    · exact ⟨_, congrArg some (congrArg _ hoverrun)⟩
    · have hnext : msg.position + 1 + n ≤ msg.length + 8 := by omega
      exact @ih { msg with position := msg.position + 1 } hnext hbuffer hoverrun a ha

theorem getBytes_refused (bytes : Bytes) {n : ℕ} (h : bytes.length < n) : ∃ v, some (Answer.number v, true) ∈
      answers segment.step (some ⟨bytes, false⟩) (List.replicate n Read.getByte) := by
  induction bytes generalizing n with
  | nil =>
    obtain ⟨n, rfl⟩ := Nat.exists_eq_add_of_lt h
    exact ⟨0, List.mem_cons_self⟩
  | cons b bytes ih =>
    obtain ⟨n, rfl⟩ := Nat.exists_eq_add_of_lt h
    obtain ⟨v, hv⟩ := ih (by omega : bytes.length < bytes.length + 1 + n)
    refine ⟨v, ?_⟩
    rw [List.length_cons, List.replicate_succ]
    exact List.mem_cons_of_mem _ hv

end First

section Beyond
variable {content : Bytes} {msg : Received}

theorem not_onlyReceived_of_end (hposition : msg.position ≤ 9) (hlength : msg.length = content.length + 2)
    (hbuffer : msg.length + 8 < NETWORKMESSAGE_MAXSIZE) (hoverrun : msg.overrun = false) :
    ¬ OnlyReceived content msg := by
  rintro ⟨before, bytes, after, hsplit, hsame⟩
  have hshort : bytes.length < content.length + 1 := by
    rw [hsplit, List.length_append, List.length_append]
    omega
  obtain ⟨v, hrefused⟩ := getBytes_refused bytes hshort
  rw [← hoverrun, ← hsame] at hrefused
  obtain ⟨v', hv'⟩ := getBytes_granted (by omega) hbuffer hoverrun _ hrefused
  cases hv'

end Beyond

/-! ## Later packets -/

section Later
variable {msg : Received} {key : Xtea.Key} {overrun : Bool} {body : Bytes} {memory : Memory}

theorem onlyReceived_of_end {content : Bytes} {msg : Received} (hstart : 2 ≤ msg.position)
    (hposition : msg.position ≤ msg.length + 8) (hend : msg.length + 8 ≤ content.length + 2)
    (hbuffer : content.length + 2 < NETWORKMESSAGE_MAXSIZE)
    (hcontent : slice msg.buffer 2 content.length = content) : OnlyReceived content msg := by
  obtain ⟨skipped, hskipped⟩ := Nat.exists_eq_add_of_le hstart
  obtain ⟨n, hn⟩ := Nat.exists_eq_add_of_le hposition
  obtain ⟨rest, hrest⟩ := Nat.exists_eq_add_of_le hend
  have hsplit : content.length = skipped + n + rest := by omega
  have hwhole : content = slice msg.buffer 2 skipped ++ slice msg.buffer (2 + skipped) n ++
      slice msg.buffer (2 + (skipped + n)) rest := by
    rw [← slice_add, ← slice_add, ← hsplit, hcontent]
  refine ⟨_, _, _, hwhole, ?_⟩
  have hinside : msg.Inside ⟨slice msg.buffer (2 + skipped) n, msg.overrun⟩ :=
    ⟨hposition, by omega, by rw [← hskipped, hn, Nat.add_sub_cancel_left], rfl⟩
  exact hinside.answers

theorem length_opened (kind : Kind) (body : Bytes) : (kind.opened body).length = body.length := by
  cases kind with
  | first => rfl
  | later key overrun =>
    rw [Kind.opened]
    split
    · rw [List.length_append, Xtea.length_decrypt, ← List.length_append, List.take_append_drop]
    · rw [List.length_append, Xtea.length_decrypt, ← List.length_append, List.take_append_drop]

theorem slice_opened {n : ℕ} (hn : body.length = 4 + n) :
    slice (put (Received.arrive memory overrun body).buffer (if checksummed body then 6 else 2)
      (Xtea.decrypt key (slice (Received.arrive memory overrun body).buffer
        (if checksummed body then 6 else 2) n))) 2 body.length =
      (Kind.later key overrun).opened body := by
  have hbody : slice (Received.arrive memory overrun body).buffer 2 body.length = body := slice_arrive
  generalize (Received.arrive memory overrun body).buffer = b at hbody ⊢
  have hcut : body.length - 4 = n := by omega
  rw [Kind.opened]
  by_cases hc : checksummed body = true
  · have hfront : slice b 2 4 = body.take 4 := by
      rw [← take_slice b 2 (by omega : 4 ≤ body.length), hbody]
    have hdata : slice b 6 n = body.drop 4 := by
      have hdrop := drop_slice b 2 4 n
      rw [← hn, hbody] at hdrop
      exact hdrop.symm
    have hlen : (Xtea.decrypt key (body.drop 4)).length = n := by
      rw [Xtea.length_decrypt, List.length_drop]
      omega
    rw [if_pos hc, if_pos hc, hdata, hn, slice_add, slice_put_before _ _ (by omega), hfront]
    generalize Xtea.decrypt key (body.drop 4) = data at hlen ⊢
    rw [← hlen]
    exact congrArg _ (slice_put b 6 data)
  · have hdata : slice b 2 n = body.take n := by
      rw [← take_slice b 2 (by omega : n ≤ body.length), hbody]
    have hback : slice b (2 + n) 4 = body.drop n := by
      have hdrop := drop_slice b 2 n 4
      rw [Nat.add_comm n 4, ← hn, hbody] at hdrop
      exact hdrop.symm
    have hlen : (Xtea.decrypt key (body.take n)).length = n := by
      rw [Xtea.length_decrypt, List.length_take]
      omega
    rw [if_neg hc, if_neg hc, hdata, hcut, hn, Nat.add_comm 4 n, slice_add]
    generalize Xtea.decrypt key (body.take n) = data at hlen ⊢
    have hfront : slice (put b 2 data) 2 n = data := hlen ▸ slice_put b 2 data
    rw [hfront, slice_put_after b (by omega), hback]

/-- `XTEA_decrypt` of a message that ends inside the buffer: the length that was sent lies inside
the message, or the packet is dropped. -/
theorem XTEA_decrypt_spec (hposition : msg.position ≤ 6) (hlength : 3 ≤ msg.length)
    (hbuffer : msg.length + 8 < NETWORKMESSAGE_MAXSIZE) :
    ∃ decrypted msg', msg.XTEA_decrypt key = some (decrypted, msg') ∧
      (decrypted = true → 6 ≤ msg.length ∧ msg'.length + 8 ≤ msg.length ∧
        msg'.position = msg.position + 2 ∧ msg'.buffer = put msg.buffer msg.position
          (Xtea.decrypt key (slice msg.buffer msg.position (msg.length - 6)))) := by
  rw [Received.XTEA_decrypt]
  by_cases hblocks : ((msg.length : ℤ) - 6) % 8 ≠ 0
  · rw [if_pos hblocks]
    exact ⟨false, msg, rfl, nofun⟩
  · have hwhole : 6 ≤ msg.length := by omega
    have hregion : msg.region msg.position (msg.length - 6) =
        some (slice msg.buffer msg.position (msg.length - 6)) := if_pos (by omega)
    rw [if_neg hblocks, hregion]
    simp only [Option.bind_eq_bind, Option.bind_some]
    rw [get_granted (by dsimp only; omega) (by dsimp only; omega)]
    simp only [Option.bind_some]
    split
    · exact ⟨false, _, rfl, nofun⟩
    · rename_i hinner
      exact ⟨true, _, rfl, fun _ => ⟨hwhole, by dsimp only; omega, rfl, rfl⟩⟩

/-- What is behind the length of the decrypted part is not read, and that length is inside the
packet. -/
theorem handOver_later (h : acceptsSize body.length = true) {c : Bool} (hc : 4 ≤ body.length → c = checksummed body) :
    ∃ outcome, Received.handOver { Received.arrive memory overrun body with
        position := if c then 6 else 2 } c (.later key overrun) = some outcome ∧
      ∀ msg, outcome = some msg → OnlyReceived ((Kind.later key overrun).opened body) msg := by
  have hsize := size_of_accepted h
  have hnonempty : body.length ≠ 0 := by
    intro hzero
    rw [hzero] at h
    cases h
  have hstart : (if c then 6 else 2) ≤ 6 ∧ 2 ≤ (if c then 6 else 2) := by
    split <;> omega
  obtain ⟨decrypted, msg', hdecrypt, hspec⟩ := @XTEA_decrypt_spec
    { Received.arrive memory overrun body with position := if c then 6 else 2 } key hstart.1
    (by simp only [Received.arrive]; omega) (by simp only [Received.arrive]; omega)
  refine ⟨if decrypted then some msg' else none, ?_, ?_⟩
  · rw [Received.handOver, hdecrypt]
    rfl
  · intro msg hmsg
    split at hmsg
    · obtain rfl := Option.some.inj hmsg
      obtain ⟨hwhole, hinner, hposition, hdata⟩ := hspec ‹_›
      change 6 ≤ body.length + 2 at hwhole
      change msg'.length + 8 ≤ body.length + 2 at hinner
      change msg'.position = (if c then 6 else 2) + 2 at hposition
      obtain ⟨n, hn⟩ := Nat.exists_eq_add_of_le (by omega : 4 ≤ body.length)
      have hright := hc (by omega)
      have hcontent : slice msg'.buffer 2 body.length = (Kind.later key overrun).opened body := by
        have hcount : body.length + 2 - 6 = n := by omega
        rw [← @slice_opened key overrun body memory n hn, hdata, ← hright]
        simp only [Received.arrive, hcount]
      rw [← length_opened (.later key overrun) body] at hinner hcontent hsize
      exact onlyReceived_of_end (by omega) (by omega) hinner (by omega) hcontent
    · cases hmsg

end Later

/-- No access of the server leaves the buffer, and what a handler reads was received with the
packet exactly if the packet was encrypted: a first one is read up to eight bytes too far. -/
theorem only_received_iff (kind : Kind) (packet : Packet) (memory : Memory) :
    ∃ outcome, packet.parse kind memory = some outcome ∧ ∀ msg, outcome = some msg →
        (OnlyReceived (kind.opened packet.body) msg ↔ kind.encrypted = true) := by
  have hsize := size_of_accepted packet.accepted
  obtain ⟨c, hcheck, hc⟩ :=
    @checkChecksum_arrive packet.body memory kind.overrun packet.accepted
  have hparse : packet.parse kind memory = Received.handOver
      { Received.arrive memory kind.overrun packet.body with position := if c then 6 else 2 } c kind := by
    rw [Packet.parse, Received.parsePacket, hcheck]
    rfl
  rw [hparse]
  cases kind with
  | first services =>
    obtain ⟨outcome, hhand, hspec⟩ := @handOver_first
      { Received.arrive memory false packet.body with position := if c then 6 else 2 }
      (by dsimp only; split <;> omega) (by simp only [Received.arrive]; omega) c services
    refine ⟨outcome, hhand, fun msg hmsg => iff_of_false ?_ Bool.false_ne_true⟩
    obtain ⟨hlength, hposition, hoverrun⟩ := hspec msg hmsg
    change msg.length = packet.body.length + 2 at hlength
    exact not_onlyReceived_of_end (by omega) hlength (by omega) hoverrun
  | later key overrun =>
    obtain ⟨outcome, hhand, hspec⟩ := handOver_later packet.accepted hc
    exact ⟨outcome, hhand, fun msg hmsg => iff_of_true (hspec msg hmsg) rfl⟩

/-- A first packet of one byte, which is the identifier: the handler's first byte is an old one. -/
theorem stale_byte_read : ∃ msg, (Packet.mk [10] rfl).parse (.first none) (fun _ => 0xEE) = some (some msg) ∧
      answers received.step (some msg) [.getByte] = [some (.number 0xEE, false)] ∧
      ¬ OnlyReceived [10] msg := by
  refine ⟨_, rfl, rfl, ?_⟩
  refine not_onlyReceived_of_end ?_ rfl ?_ rfl
  · decide
  · decide

end ForgottenServer.Net
