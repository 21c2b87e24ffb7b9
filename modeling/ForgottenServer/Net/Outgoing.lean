import ForgottenServer.Lib.Run
import ForgottenServer.Net.Framing

/-! # The way out of a connection

`Connection::send` keeps the messages in `messageQueue` while one of them is written
to the socket. The message at the front is prepared where it stands when its write
begins, so it must not be prepared again. A connection that is closed takes no more
messages; the ones it has are still written, unless it is closed by force.

`connectionLock` is held in every function, so they are the steps. Whether the write
ends with an error, and whether `internalSend` throws, belongs to the event. -/
namespace ForgottenServer.Net.Outgoing
open ForgottenServer.Lib.Run ForgottenServer.Lib.Wire

structure Connection where
  protocol : Protocol
  /-- the oldest first, as all lists here -/
  messageQueue : List OutputMessage := []
  /-- `connectionState` is `CONNECTION_STATE_DISCONNECTED` -/
  disconnected : Bool := false
  socketOpen : Bool := true
  /-- an `async_write` has not ended yet -/
  writing : Bool := false
  /-- the messages `send` has taken, before they were prepared -/
  queued : List OutputMessage := []
  /-- those of them that come from the output buffer of the protocol -/
  buffered : List OutputMessage := []
  /-- what `async_write` was given -/
  begun : List Bytes := []
  /-- what it has written without an error -/
  completed : List Bytes := []

namespace Connection

def closeSocket (c : Connection) : Connection := { c with socketOpen := false }

def close (c : Connection) (force : Bool) : Connection :=
  let c := { c with disconnected := true }
  if c.messageQueue.isEmpty || force then c.closeSocket else c

/-- The message is the front of the queue in both calls. -/
def internalSend (c : Connection) (throws : Bool) : Connection :=
  match c.messageQueue with
  | [] => c
  | msg :: queue =>
    let msg := c.protocol.onSendMessage msg
    let c := { c with messageQueue := msg :: queue }
    if throws then c.close true
    else { c with writing := true, begun := c.begun ++ [msg.output] }

def send (c : Connection) (throws : Bool) (msg : OutputMessage) : Connection :=
  if c.disconnected then c
  else
    let noPendingWrite := c.messageQueue.isEmpty
    let c := { c with messageQueue := c.messageQueue ++ [msg], queued := c.queued ++ [msg] }
    if noPendingWrite then c.internalSend throws else c

/-- `send`, of a message out of the output buffer. -/
def sendBuffer (c : Connection) (throws : Bool) (msg : OutputMessage) : Connection :=
  if c.disconnected then c
  else { c with buffered := c.buffered ++ [msg] }.send throws msg

def onWriteOperation (c : Connection) (error throws : Bool) : Connection :=
  let front := c.messageQueue.head?.toList
  let c := { c with writing := false, messageQueue := c.messageQueue.tail }
  if error then { c with messageQueue := [] }.close true
  else
    let c := { c with completed := c.completed ++ front.map OutputMessage.output }
    if !c.messageQueue.isEmpty then c.internalSend throws
    else if c.disconnected then c.closeSocket
    else c

/-- The protocol takes a step, and what it sends goes to the connection. -/
def protocolStep (c : Connection) (e : Sending) (throws : Bool) : Connection :=
  let protocol := c.protocol.step e
  let sent := protocol.sent.drop c.protocol.sent.length
  sent.foldl (·.sendBuffer throws) { c with protocol }

end Connection

inductive Event
  /-- `writeToOutputBuffer`, or `sendAll` of the pool -/
  | protocol (e : Sending) (throws : Bool)
  /-- a message that does not go through the output buffer -/
  | send (msg : OutputMessage) (throws : Bool)
  /-- the handler of `async_write` -/
  | written (error throws : Bool)
  /-- `close`, also out of `handleTimeout` and of the functions that read -/
  | close (force : Bool)
  /-- `ConnectionManager::closeAll` -/
  | closeAll

def step (c : Connection) : Event → Connection
  | .protocol e throws => c.protocolStep e throws
  | .send msg throws => c.send throws msg
  | .written error throws => if c.writing then c.onWriteOperation error throws else c
  | .close force => c.close force
  | .closeAll => c.closeSocket

/-- A connection after the login, with nothing to send. -/
def opened (mode : ChecksumMode) (key : Xtea.Key) : Connection where
  protocol := .start mode key

/-- Neither the socket nor the timer fails, and nobody uses force. -/
def Event.clean : Event → Bool
  | .protocol _ throws => !throws
  | .send _ throws => !throws
  | .written error throws => !error && !throws
  | .close force => !force
  | .closeAll => false

def Event.sending : Event → Option Sending
  | .protocol e _ => some e
  | _ => none

/-- What happened to the protocol. -/
def sendings (events : List Event) : List Sending := events.filterMap Event.sending

/-- The bytes a message goes to the socket with. -/
def frame (mode : ChecksumMode) (key : Xtea.Key) (msg : OutputMessage) : Bytes :=
  ((Protocol.start mode key).onSendMessage msg).output

/-! ## The protocol -/

variable {mode : ChecksumMode} {key : Xtea.Key} {c : Connection}

theorem onSendMessage_step (p : Protocol) (e : Sending) : (p.step e).onSendMessage = p.onSendMessage := by
  cases e with
  | write memory scratch writes =>
    obtain h | ⟨out, -, -, h⟩ := writeToOutputBuffer_cases p memory (.build scratch writes)
    all_goals
      change (p.writeToOutputBuffer memory _).onSendMessage = _
      rw [h]
      rfl
  | sendAll =>
    change p.sendAll.onSendMessage = _
    unfold Protocol.sendAll
    split <;> rfl

theorem sent_step (p : Protocol) (e : Sending) :
    (p.step e).sent = p.sent ∨ ∃ out, (p.step e).sent = p.sent ++ [out] := by
  cases e with
  | write memory scratch writes =>
    change (p.writeToOutputBuffer memory _).sent = _ ∨ ∃ out, _
    obtain h | ⟨out, -, -, h⟩ := writeToOutputBuffer_cases p memory (.build scratch writes)
    · have hsent := congrArg Protocol.sent h
      cases hbuffer : p.outputBuffer with
      | none =>
        rw [hbuffer] at hsent
        exact .inl (hsent.trans (List.append_nil _))
      | some out =>
        rw [hbuffer] at hsent
        exact .inr ⟨out, hsent⟩
    · rw [h]
      exact .inl rfl
  | sendAll =>
    change p.sendAll.sent = _ ∨ ∃ out, p.sendAll.sent = _
    unfold Protocol.sendAll
    split
    · exact .inl rfl
    · exact .inr ⟨_, rfl⟩

/-- The step of the protocol is one without a message for the connection, or one with
a single message. -/
theorem protocolStep_cases (c : Connection) (e : Sending) (throws : Bool) :
    (c.protocol.step e).sent = c.protocol.sent ∧ c.protocolStep e throws = { c with protocol := c.protocol.step e } ∨
    ∃ out, (c.protocol.step e).sent = c.protocol.sent ++ [out] ∧ c.protocolStep e throws =
        { c with protocol := c.protocol.step e }.sendBuffer throws out := by
  obtain h | ⟨out, h⟩ := sent_step c.protocol e
  · refine .inl ⟨h, ?_⟩
    simp only [Connection.protocolStep, h, List.drop_length, List.foldl_nil]
  · refine .inr ⟨out, h, ?_⟩
    simp only [Connection.protocolStep, h, List.drop_left, List.foldl_cons, List.foldl_nil]

/-! ## The queue -/

/-- How far the messages are. -/
inductive Phase (mode : ChecksumMode) (key : Xtea.Key) (c : Connection) : Prop
  | idle (hwriting : c.writing = false) (hqueue : c.messageQueue = [])
      (hbegun : c.begun = c.queued.map (frame mode key)) (hcompleted : c.completed = c.begun)
  | busy (done : List OutputMessage) (msg : OutputMessage) (rest : List OutputMessage)
      (hwriting : c.writing = true) (hqueued : c.queued = done ++ msg :: rest)
      (hqueue : c.messageQueue = (Protocol.start mode key).onSendMessage msg :: rest)
      (hbegun : c.begun = (done ++ [msg]).map (frame mode key))
      (hcompleted : c.completed = done.map (frame mode key))
  /-- a write failed, or could not begin -/
  | broken (started late : List OutputMessage) (hwriting : c.writing = false)
      (hdisconnected : c.disconnected = true) (hqueued : c.queued = started ++ late)
      (hbegun : c.begun = started.map (frame mode key))
      (hcompleted : c.completed = c.begun ∨ ∃ last, c.begun = c.completed ++ [last])

structure Inv (mode : ChecksumMode) (key : Xtea.Key) (c : Connection) : Prop where
  settings : c.protocol.onSendMessage = (Protocol.start mode key).onSendMessage
  phase : Phase mode key c

theorem Phase.edit (h : Phase mode key c) (protocol : Protocol) (buffered : List OutputMessage) (socketOpen : Bool)
    {disconnected : Bool} (hkept : c.disconnected = true → disconnected = true) :
    Phase mode key { c with protocol, buffered, socketOpen, disconnected } := by
  cases h with
  | idle hwriting hqueue hbegun hcompleted => exact .idle hwriting hqueue hbegun hcompleted
  | busy done msg rest hwriting hqueued hqueue hbegun hcompleted =>
    exact .busy done msg rest hwriting hqueued hqueue hbegun hcompleted
  | broken started late hwriting hdisconnected hqueued hbegun hcompleted =>
    exact .broken started late hwriting (hkept hdisconnected) hqueued hbegun hcompleted

theorem Phase.closeSocket (h : Phase mode key c) : Phase mode key c.closeSocket :=
  h.edit c.protocol c.buffered false id

theorem Phase.disconnect (h : Phase mode key c) : Phase mode key { c with disconnected := true } :=
  h.edit c.protocol c.buffered c.socketOpen fun _ => rfl

theorem Phase.relabel (h : Phase mode key c) (protocol : Protocol) (buffered : List OutputMessage) :
    Phase mode key { c with protocol, buffered } :=
  h.edit protocol buffered c.socketOpen id

theorem Phase.close (h : Phase mode key c) (force : Bool) : Phase mode key (c.close force) := by
  unfold Connection.close
  dsimp only
  split
  · exact h.disconnect.closeSocket
  · exact h.disconnect

theorem close_force (c : Connection) : c.close true = { c with disconnected := true, socketOpen := false } := by
  unfold Connection.close
  dsimp only
  rw [Bool.or_true]
  rfl

/-- There is a new front of the queue, and all before it is written. -/
structure Ready (mode : ChecksumMode) (key : Xtea.Key) (c : Connection)
    (done rest : List OutputMessage) (msg : OutputMessage) : Prop where
  settings : c.protocol.onSendMessage = (Protocol.start mode key).onSendMessage
  writing : c.writing = false
  queued : c.queued = done ++ msg :: rest
  queue : c.messageQueue = msg :: rest
  begun : c.begun = done.map (frame mode key)
  completed : c.completed = c.begun

theorem internalSend_phase {done rest : List OutputMessage} {msg : OutputMessage} (throws : Bool)
    (h : Ready mode key c done rest msg) : Phase mode key (c.internalSend throws) := by
  unfold Connection.internalSend
  rw [h.queue]
  dsimp only
  split
  · rw [close_force]
    exact .broken done (msg :: rest) h.writing rfl h.queued h.begun (.inl h.completed)
  · refine .busy done msg rest rfl h.queued ?_ ?_ (h.completed.trans h.begun)
    · rw [h.settings]
    · rw [h.settings, h.begun, List.map_append]
      rfl

theorem send_phase (h : Inv mode key c) (throws : Bool) (msg : OutputMessage) :
    Phase mode key (c.send throws msg) := by
  unfold Connection.send
  split
  · exact h.phase
  · rename_i hconnected
    cases h.phase with
    | idle hwriting hqueue hbegun hcompleted =>
      dsimp only
      rw [hqueue, if_pos (by rfl)]
      exact internalSend_phase throws ⟨h.settings, hwriting, rfl, rfl, hbegun, hcompleted⟩
    | busy done front rest hwriting hqueued hqueue hbegun hcompleted =>
      dsimp only
      rw [hqueue, hqueued]
      refine .busy done front (rest ++ [msg]) hwriting ?_ rfl hbegun hcompleted
      exact List.append_assoc _ _ _
    | broken started late hwriting hdisconnected hqueued hbegun hcompleted =>
      exact absurd hdisconnected hconnected

theorem sendBuffer_phase (h : Inv mode key c) (throws : Bool) (msg : OutputMessage) :
    Phase mode key (c.sendBuffer throws msg) := by
  unfold Connection.sendBuffer
  split
  · exact h.phase
  · have hnext : Inv mode key { c with buffered := c.buffered ++ [msg] } :=
      ⟨h.settings, h.phase.relabel c.protocol (c.buffered ++ [msg])⟩
    exact send_phase hnext throws msg

theorem onWriteOperation_phase (h : Inv mode key c) (hbusy : c.writing = true)
    (error throws : Bool) : Phase mode key (c.onWriteOperation error throws) := by
  cases h.phase with
  | idle hwriting hqueue hbegun hcompleted =>
    rw [hbusy] at hwriting
    cases hwriting
  | broken started late hwriting hdisconnected hqueued hbegun hcompleted =>
    rw [hbusy] at hwriting
    cases hwriting
  | busy done msg rest hwriting hqueued hqueue hbegun hcompleted =>
    have hsplit := hqueued.trans (List.append_cons done msg rest)
    have hlast : c.begun = c.completed ++ [frame mode key msg] := by
      rw [hbegun, hcompleted, List.map_append]
      rfl
    unfold Connection.onWriteOperation
    rw [hqueue]
    dsimp only [List.head?_cons, List.tail_cons, Option.toList]
    split
    · rw [close_force]
      exact .broken (done ++ [msg]) rest rfl rfl hsplit hbegun (.inr ⟨_, hlast⟩)
    · cases rest with
      | nil =>
        have hidle : Phase mode key { c with
            writing := false
            messageQueue := []
            completed := c.completed ++ [frame mode key msg] } := by
          refine .idle rfl rfl ?_ hlast.symm
          rw [hbegun, hsplit, List.append_nil]
        rw [if_neg (by simp)]
        split
        · exact hidle.closeSocket
        · exact hidle
      | cons next rest =>
        rw [if_pos (by rfl)]
        exact internalSend_phase throws ⟨h.settings, rfl, hsplit, rfl, hbegun, hlast.symm⟩

/-! ## What stays as it is -/

/-- The protocol and the messages taken are the same, and the connection is not opened. -/
structure Keeps (c c' : Connection) : Prop where
  protocol : c'.protocol = c.protocol
  queued : c'.queued = c.queued
  buffered : c'.buffered = c.buffered
  disconnected : c.disconnected = true → c'.disconnected = true

theorem close_keeps (c : Connection) (force : Bool) : Keeps c (c.close force) := by
  unfold Connection.close Connection.closeSocket
  dsimp only
  split <;> exact ⟨rfl, rfl, rfl, fun _ => rfl⟩

theorem internalSend_keeps (c : Connection) (throws : Bool) : Keeps c (c.internalSend throws) := by
  unfold Connection.internalSend
  split
  · exact ⟨rfl, rfl, rfl, id⟩
  · dsimp only
    split
    · rw [close_force]
      exact ⟨rfl, rfl, rfl, fun _ => rfl⟩
    · exact ⟨rfl, rfl, rfl, id⟩

theorem onWriteOperation_keeps (c : Connection) (error throws : Bool) : Keeps c (c.onWriteOperation error throws) := by
  unfold Connection.onWriteOperation Connection.closeSocket
  dsimp only
  split
  · rw [close_force]
    exact ⟨rfl, rfl, rfl, fun _ => rfl⟩
  · split
    · have h := internalSend_keeps { c with
        writing := false
        messageQueue := c.messageQueue.tail
        completed := c.completed ++ c.messageQueue.head?.toList.map OutputMessage.output } throws
      exact ⟨h.protocol, h.queued, h.buffered, h.disconnected⟩
    · split <;> exact ⟨rfl, rfl, rfl, id⟩

/-- The connection, once `send` has taken the message. -/
def taken (c : Connection) (msg : OutputMessage) : Connection :=
  { c with messageQueue := c.messageQueue ++ [msg], queued := c.queued ++ [msg] }

theorem send_of_disconnected (h : c.disconnected = true) (throws : Bool) (msg : OutputMessage) :
    c.send throws msg = c := by
  unfold Connection.send
  rw [if_pos h]

theorem send_keeps (h : c.disconnected = false) (throws : Bool) (msg : OutputMessage) :
    Keeps (taken c msg) (c.send throws msg) := by
  unfold Connection.send
  rw [if_neg (by rw [h]; exact Bool.false_ne_true)]
  dsimp only
  split
  · exact internalSend_keeps (taken c msg) throws
  · exact ⟨rfl, rfl, rfl, id⟩

theorem send_protocol (c : Connection) (throws : Bool) (msg : OutputMessage) :
    (c.send throws msg).protocol = c.protocol := by
  cases h : c.disconnected with
  | true => rw [send_of_disconnected h]
  | false => exact (send_keeps h throws msg).protocol

theorem sendBuffer_protocol (c : Connection) (throws : Bool) (msg : OutputMessage) :
    (c.sendBuffer throws msg).protocol = c.protocol := by
  unfold Connection.sendBuffer
  split
  · rfl
  · exact send_protocol _ throws msg

theorem protocolStep_protocol (c : Connection) (e : Sending) (throws : Bool) :
    (c.protocolStep e throws).protocol = c.protocol.step e := by
  obtain ⟨-, h⟩ | ⟨out, -, h⟩ := protocolStep_cases c e throws
  · rw [h]
  · rw [h]
    exact sendBuffer_protocol _ throws out

theorem step_protocol (c : Connection) (e : Event) :
    (step c e).protocol = e.sending.toList.foldl Protocol.step c.protocol := by
  cases e with
  | protocol e throws => exact protocolStep_protocol c e throws
  | send msg throws => exact send_protocol c throws msg
  | written error throws =>
    change (if c.writing then c.onWriteOperation error throws else c).protocol = _
    split
    · exact (onWriteOperation_keeps c error throws).protocol
    · rfl
  | close force => exact (close_keeps c force).protocol
  | closeAll => rfl

theorem run_protocol (c : Connection) (events : List Event) :
    (run step c events).protocol = (sendings events).foldl Protocol.step c.protocol := by
  induction events generalizing c with
  | nil => rfl
  | cons e events ih =>
    have hsendings : sendings (e :: events) = e.sending.toList ++ sendings events := by
      unfold sendings
      rw [List.filterMap_cons]
      cases e.sending <;> rfl
    rw [run_cons, ih, step_protocol, hsendings, List.foldl_append]

/-! ## Runs -/

theorem step_inv (h : Inv mode key c) (e : Event) : Inv mode key (step c e) := by
  have hsettings : (step c e).protocol.onSendMessage = (Protocol.start mode key).onSendMessage := by
    rw [step_protocol, ← h.settings]
    cases e.sending with
    | none => rfl
    | some e => exact onSendMessage_step c.protocol e
  refine ⟨hsettings, ?_⟩
  cases e with
  | protocol e throws =>
    have hphase := h.phase.relabel (c.protocol.step e) c.buffered
    obtain ⟨-, hstep⟩ | ⟨out, -, hstep⟩ := protocolStep_cases c e throws
    · change Phase mode key (c.protocolStep e throws)
      rw [hstep]
      exact hphase
    · change Phase mode key (c.protocolStep e throws)
      rw [hstep]
      exact sendBuffer_phase ⟨(onSendMessage_step c.protocol e).trans h.settings, hphase⟩ throws out
  | send msg throws => exact send_phase h throws msg
  | written error throws =>
    change Phase mode key (if c.writing then c.onWriteOperation error throws else c)
    split
    · rename_i hbusy
      exact onWriteOperation_phase h hbusy error throws
    · exact h.phase
  | close force => exact h.phase.close force
  | closeAll => exact h.phase.closeSocket

theorem opened_inv (mode : ChecksumMode) (key : Xtea.Key) : Inv mode key (opened mode key) where
  settings := rfl
  phase := .idle rfl rfl rfl rfl

theorem run_inv (mode : ChecksumMode) (key : Xtea.Key) (events : List Event) :
    Inv mode key (run step (opened mode key) events) := by
  refine @inv_run _ _ step (fun _ _ => True) (Inv mode key) (fun _ e h _ => step_inv h e) _ _ ?_ ?_
  · exact opened_inv mode key
  · exact Along.of_forall fun _ _ => trivial

/-- The messages taken out of the output buffer. -/
structure Taken (c : Connection) : Prop where
  sublist : c.buffered.Sublist c.queued
  sent : c.buffered <+: c.protocol.sent
  connected : c.disconnected = false → c.buffered = c.protocol.sent

theorem Keeps.taken {c' : Connection} (h : Keeps c c') (ht : Taken c) : Taken c' where
  sublist := by
    rw [h.buffered, h.queued]
    exact ht.sublist
  sent := by
    rw [h.buffered, h.protocol]
    exact ht.sent
  connected := by
    intro hconnected
    rw [h.buffered, h.protocol]
    refine ht.connected (Bool.eq_false_iff.mpr fun hdisconnected => ?_)
    rw [h.disconnected hdisconnected] at hconnected
    cases hconnected

theorem send_taken (ht : Taken c) (throws : Bool) (msg : OutputMessage) : Taken (c.send throws msg) := by
  cases h : c.disconnected with
  | true =>
    rw [send_of_disconnected h]
    exact ht
  | false =>
    refine (send_keeps h throws msg).taken ⟨?_, ht.sent, ht.connected⟩
    exact ht.sublist.trans (List.sublist_append_left _ _)

theorem protocolStep_taken (ht : Taken c) (e : Sending) (throws : Bool) : Taken (c.protocolStep e throws) := by
  obtain ⟨hsent, h⟩ | ⟨out, hsent, h⟩ := protocolStep_cases c e throws
  · rw [h]
    refine ⟨ht.sublist, ?_, ?_⟩
    · exact hsent ▸ ht.sent
    · exact hsent ▸ ht.connected
  · rw [h]
    unfold Connection.sendBuffer
    split
    · rename_i hdisconnected
      refine ⟨ht.sublist, ?_, fun hconnected => ?_⟩
      · exact ht.sent.trans (hsent ▸ List.prefix_append _ _)
      · rw [hdisconnected] at hconnected
        cases hconnected
    · rename_i hconnected
      have hconnected := Bool.eq_false_iff.mpr hconnected
      refine (send_keeps ?_ throws out).taken ?_
      · exact hconnected
      · have hall : c.buffered ++ [out] = (c.protocol.step e).sent := by
          rw [ht.connected hconnected, hsent]
        refine ⟨ht.sublist.append_right [out], ?_, fun _ => hall⟩
        exact ⟨[], (List.append_nil _).trans hall⟩

theorem step_taken (ht : Taken c) (e : Event) : Taken (step c e) := by
  cases e with
  | protocol e throws => exact protocolStep_taken ht e throws
  | send msg throws => exact send_taken ht throws msg
  | written error throws =>
    change Taken (if c.writing then c.onWriteOperation error throws else c)
    split
    · exact (onWriteOperation_keeps c error throws).taken ht
    · exact ht
  | close force => exact (close_keeps c force).taken ht
  | closeAll => exact ⟨ht.sublist, ht.sent, ht.connected⟩

theorem run_taken (mode : ChecksumMode) (key : Xtea.Key) (events : List Event) :
    Taken (run step (opened mode key) events) := by
  refine @inv_run _ _ step (fun _ _ => True) Taken (fun _ e h _ => step_taken h e) _ _ ?_ ?_
  · exact ⟨.slnil, List.prefix_rfl, fun _ => rfl⟩
  · exact Along.of_forall fun _ _ => trivial

/-! ## In order -/

/-- What the other side gets of the messages `msgs`. -/
structure InOrder (mode : ChecksumMode) (key : Xtea.Key) (c : Connection)
    (msgs : List NetworkMessage) : Prop where
  /-- each message is prepared once, when it is its turn -/
  begun : c.begun = (c.queued.take c.begun.length).map (frame mode key)
  /-- one write at a time -/
  single : c.completed = c.begun ∨ ∃ last, c.begun = c.completed ++ [last]
  /-- nothing is left lying -/
  working : c.disconnected = false → c.writing = false → c.completed = c.queued.map (frame mode key)
  buffered : c.buffered.Sublist c.queued
  /-- the buffers hold what was written to them, up to the end of the connection -/
  groups : ∃ groups rest, List.Forall₂ Gathers c.buffered groups ∧ (groups ++ rest).flatten = msgs ∧
    (c.disconnected = false → List.Forall₂ Gathers c.protocol.outputBuffer.toList rest)

theorem begun_of_prefix {started late : List OutputMessage} (hqueued : c.queued = started ++ late)
    (hbegun : c.begun = started.map (frame mode key)) :
    c.begun = (c.queued.take c.begun.length).map (frame mode key) := by
  have hlength : c.begun.length = started.length := by rw [hbegun, List.length_map]
  rw [hlength, hqueued, List.take_left, hbegun]

theorem Phase.begun (h : Phase mode key c) : c.begun = (c.queued.take c.begun.length).map (frame mode key) := by
  cases h with
  | idle hwriting hqueue hbegun hcompleted =>
    exact begun_of_prefix (List.append_nil _).symm hbegun
  | busy done msg rest hwriting hqueued hqueue hbegun hcompleted =>
    exact begun_of_prefix (hqueued.trans (List.append_cons done msg rest)) hbegun
  | broken started late hwriting hdisconnected hqueued hbegun hcompleted =>
    exact begun_of_prefix hqueued hbegun

theorem Phase.single (h : Phase mode key c) : c.completed = c.begun ∨ ∃ last, c.begun = c.completed ++ [last] := by
  cases h with
  | idle hwriting hqueue hbegun hcompleted => exact .inl hcompleted
  | busy done msg rest hwriting hqueued hqueue hbegun hcompleted =>
    refine .inr ⟨frame mode key msg, ?_⟩
    rw [hbegun, hcompleted, List.map_append]
    rfl
  | broken started late hwriting hdisconnected hqueued hbegun hcompleted => exact hcompleted

theorem Phase.working (h : Phase mode key c) (hconnected : c.disconnected = false)
    (hwaits : c.writing = false) : c.completed = c.queued.map (frame mode key) := by
  cases h with
  | idle hwriting hqueue hbegun hcompleted => exact hcompleted.trans hbegun
  | busy done msg rest hwriting hqueued hqueue hbegun hcompleted =>
    rw [hwriting] at hwaits
    cases hwaits
  | broken started late hwriting hdisconnected hqueued hbegun hcompleted =>
    rw [hdisconnected] at hconnected
    cases hconnected

theorem Taken.groups {msgs : List NetworkMessage} (h : Taken c)
    (hbuffered : Buffered mode key c.protocol msgs) :
    ∃ groups rest, List.Forall₂ Gathers c.buffered groups ∧ (groups ++ rest).flatten = msgs ∧
      (c.disconnected = false → List.Forall₂ Gathers c.protocol.outputBuffer.toList rest) := by
  obtain ⟨groups, last, hgroups, hlast, hflat⟩ := hbuffered.buffers
  refine ⟨groups.take c.buffered.length, groups.drop c.buffered.length ++ last, ?_, ?_, ?_⟩
  · have htake := List.forall₂_take c.buffered.length hgroups
    rwa [← List.prefix_iff_eq_take.mp h.sent] at htake
  · rw [← List.append_assoc, List.take_append_drop]
    exact hflat
  · intro hconnected
    have hlength : groups.length = c.buffered.length := by
      rw [h.connected hconnected, hgroups.length_eq]
    rw [← hlength, List.drop_length, List.nil_append]
    exact hlast

/-- Whatever fails and whoever closes the connection, the messages it takes go to the
socket in their order, one write after the other, each one prepared once; and those
out of the output buffer hold the messages that were written to it, in their order,
without a gap. -/
theorem outgoing_in_order (mode : ChecksumMode) (key : Xtea.Key) (events : List Event) :
    InOrder mode key (run step (opened mode key) events) (messages (sendings events)) := by
  have hphase := (run_inv mode key events).phase
  have htaken := run_taken mode key events
  have hbuffered : Buffered mode key (run step (opened mode key) events).protocol (messages (sendings events)) := by
    rw [run_protocol]
    exact (session_start mode key).run (sendings events)
  exact ⟨hphase.begun, hphase.single, hphase.working, htaken.sublist, htaken.groups hbuffered⟩

/-! ## To the end -/

/-- Nothing failed so far. -/
structure Sound (mode : ChecksumMode) (key : Xtea.Key) (c : Connection) : Prop where
  inv : Inv mode key c
  waits : c.writing = false → c.messageQueue = []
  whole : c.messageQueue = [] → c.completed = c.queued.map (frame mode key)
  closed : c.socketOpen = false ↔ c.disconnected = true ∧ c.messageQueue = []

theorem Sound.open_of_waiting (h : Sound mode key c) (hqueue : c.messageQueue ≠ []) : c.socketOpen = true := by
  by_contra hclosed
  exact hqueue (h.closed.mp (eq_false_of_ne_true hclosed)).2

theorem internalSend_of_cons {msg : OutputMessage} {rest : List OutputMessage}
    (h : c.messageQueue = msg :: rest) : c.internalSend false = { c with
      messageQueue := c.protocol.onSendMessage msg :: rest
      writing := true
      begun := c.begun ++ [(c.protocol.onSendMessage msg).output] } := by
  unfold Connection.internalSend
  rw [h]
  rfl

theorem send_sound (h : Sound mode key c) (msg : OutputMessage) : Sound mode key (c.send false msg) := by
  cases hconnected : c.disconnected with
  | true =>
    rw [send_of_disconnected hconnected]
    exact h
  | false =>
    have hinv : Inv mode key (c.send false msg) := by
      refine ⟨?_, send_phase h.inv false msg⟩
      rw [send_protocol]
      exact h.inv.settings
    have hopen : c.socketOpen ≠ false := fun hclosed => by
      rw [(h.closed.mp hclosed).1] at hconnected
      cases hconnected
    have hsend : (c.send false msg).messageQueue ≠ [] ∧ (c.send false msg).socketOpen ≠ false ∧
        (c.send false msg).writing = true := by
      unfold Connection.send
      rw [if_neg (by rw [hconnected]; exact Bool.false_ne_true)]
      dsimp only
      cases hqueue : c.messageQueue with
      | nil =>
        rw [if_pos (by rfl), @internalSend_of_cons _ msg [] (by rfl)]
        exact ⟨List.cons_ne_nil _ _, hopen, rfl⟩
      | cons front rest =>
        rw [if_neg (by simp)]
        refine ⟨List.cons_ne_nil _ _, hopen, ?_⟩
        by_contra hwaits
        rw [h.waits (eq_false_of_ne_true hwaits)] at hqueue
        cases hqueue
    obtain ⟨hqueue, hopen, hwriting⟩ := hsend
    refine ⟨hinv, fun hwaits => ?_, fun hempty => absurd hempty hqueue, ?_⟩
    · rw [hwriting] at hwaits
      cases hwaits
    · exact ⟨fun hclosed => absurd hclosed hopen, fun hempty => absurd hempty.2 hqueue⟩

theorem onWriteOperation_last {front : OutputMessage} (h : c.messageQueue = [front]) :
    c.onWriteOperation false false = { c with
      writing := false
      messageQueue := []
      completed := c.completed ++ [front.output]
      socketOpen := if c.disconnected then false else c.socketOpen } := by
  unfold Connection.onWriteOperation Connection.closeSocket
  rw [h]
  dsimp only [List.head?_cons, List.tail_cons, Option.toList]
  rw [if_neg Bool.false_ne_true, if_neg (by simp)]
  cases c.disconnected <;> rfl

theorem onWriteOperation_next {front next : OutputMessage} {rest : List OutputMessage}
    (h : c.messageQueue = front :: next :: rest) :
    c.onWriteOperation false false = { c with
      messageQueue := c.protocol.onSendMessage next :: rest
      writing := true
      begun := c.begun ++ [(c.protocol.onSendMessage next).output]
      completed := c.completed ++ [front.output] } := by
  unfold Connection.onWriteOperation
  rw [h]
  dsimp only [List.head?_cons, List.tail_cons, Option.toList]
  rw [if_neg Bool.false_ne_true, if_pos (by rfl), internalSend_of_cons (by rfl)]
  rfl

theorem onWriteOperation_sound (h : Sound mode key c) (hbusy : c.writing = true) :
    Sound mode key (c.onWriteOperation false false) := by
  have hinv : Inv mode key (c.onWriteOperation false false) := by
    refine ⟨?_, onWriteOperation_phase h.inv hbusy false false⟩
    rw [(onWriteOperation_keeps c false false).protocol]
    exact h.inv.settings
  cases h.inv.phase with
  | idle hwriting =>
    rw [hbusy] at hwriting
    cases hwriting
  | broken started late hwriting =>
    rw [hbusy] at hwriting
    cases hwriting
  | busy done msg rest hwriting hqueued hqueue hbegun hcompleted =>
    have hopen := h.open_of_waiting (by rw [hqueue]; exact List.cons_ne_nil _ rest)
    cases rest with
    | nil =>
      rw [onWriteOperation_last hqueue] at hinv ⊢
      refine ⟨hinv, fun _ => rfl, fun _ => ?_, ?_⟩
      · dsimp only
        rw [hcompleted, hqueued, List.map_append]
        rfl
      · dsimp only
        rw [hopen]
        cases c.disconnected <;> simp
    | cons next rest =>
      rw [onWriteOperation_next hqueue] at hinv ⊢
      refine ⟨hinv, ?_, ?_, ?_⟩
      · intro hwaits
        cases hwaits
      · intro hempty
        cases hempty
      · dsimp only
        rw [hopen]
        simp

theorem close_sound (h : Sound mode key c) : Sound mode key (c.close false) := by
  have hinv : Inv mode key (c.close false) := by
    refine ⟨?_, h.inv.phase.close false⟩
    rw [(close_keeps c false).protocol]
    exact h.inv.settings
  have hclose : c.close false = { c with
      disconnected := true
      socketOpen := if c.messageQueue = [] then false else c.socketOpen } := by
    unfold Connection.close Connection.closeSocket
    cases c.messageQueue <;> rfl
  rw [hclose] at hinv ⊢
  refine ⟨hinv, h.waits, h.whole, ?_⟩
  dsimp only
  split
  · rename_i hempty
    exact ⟨fun _ => ⟨rfl, hempty⟩, fun _ => rfl⟩
  · rename_i hqueue
    rw [h.open_of_waiting hqueue]
    refine ⟨fun hclosed => ?_, fun hempty => absurd hempty.2 hqueue⟩
    cases hclosed

theorem Sound.relabel {protocol : Protocol} (h : Sound mode key c)
    (hsettings : protocol.onSendMessage = c.protocol.onSendMessage)
    (buffered : List OutputMessage) : Sound mode key { c with protocol, buffered } where
  inv := ⟨hsettings.trans h.inv.settings, h.inv.phase.relabel protocol buffered⟩
  waits := h.waits
  whole := h.whole
  closed := h.closed

theorem step_sound (h : Sound mode key c) {e : Event} (hclean : e.clean = true) : Sound mode key (step c e) := by
  cases e with
  | protocol e throws =>
    obtain rfl : throws = false := by simpa [Event.clean] using hclean
    change Sound mode key (c.protocolStep e false)
    have hnext := h.relabel (onSendMessage_step c.protocol e) c.buffered
    obtain ⟨-, hstep⟩ | ⟨out, -, hstep⟩ := protocolStep_cases c e false
    · rw [hstep]
      exact hnext
    · rw [hstep]
      unfold Connection.sendBuffer
      split
      · exact hnext
      · exact send_sound (hnext.relabel rfl (c.buffered ++ [out])) out
  | send msg throws =>
    obtain rfl : throws = false := by simpa [Event.clean] using hclean
    exact send_sound h msg
  | written error throws =>
    obtain ⟨rfl, rfl⟩ : error = false ∧ throws = false := by simpa [Event.clean] using hclean
    change Sound mode key (if c.writing then c.onWriteOperation false false else c)
    split
    · rename_i hbusy
      exact onWriteOperation_sound h hbusy
    · exact h
  | close force =>
    obtain rfl : force = false := by simpa [Event.clean] using hclean
    exact close_sound h
  | closeAll => cases hclean

theorem run_sound {events : List Event} (h : Sound mode key c)
    (hclean : ∀ e ∈ events, e.clean = true) : Sound mode key (run step c events) := by
  refine @inv_run _ _ step (fun _ e => e.clean = true) (Sound mode key)
    (fun _ e hsound hok => step_sound hsound hok) c events h ?_
  exact Along.of_forall hclean

theorem opened_sound (mode : ChecksumMode) (key : Xtea.Key) : Sound mode key (opened mode key) where
  inv := opened_inv mode key
  waits := fun _ => rfl
  whole := fun _ => rfl
  closed := by simp [opened]

theorem drain (h : Sound mode key c) {n : ℕ} (hn : c.messageQueue.length = n) :
    let c' := run step c (List.replicate n (.written false false))
    Sound mode key c' ∧ c'.messageQueue = [] ∧ c'.queued = c.queued ∧ c'.disconnected = c.disconnected := by
  induction n generalizing c with
  | zero => exact ⟨h, List.length_eq_zero_iff.mp hn, rfl, rfl⟩
  | succ n ih =>
    have hbusy : c.writing = true := by
      by_contra hwaits
      rw [h.waits (eq_false_of_ne_true hwaits)] at hn
      cases hn
    have hstep : step c (.written false false) = c.onWriteOperation false false := if_pos hbusy
    have hsound := onWriteOperation_sound h hbusy
    have hrest : (c.onWriteOperation false false).messageQueue.length = n ∧
        (c.onWriteOperation false false).queued = c.queued ∧
        (c.onWriteOperation false false).disconnected = c.disconnected := by
      cases hqueue : c.messageQueue with
      | nil =>
        rw [hqueue] at hn
        cases hn
      | cons front rest =>
        rw [hqueue] at hn
        cases rest with
        | nil =>
          rw [onWriteOperation_last hqueue]
          exact ⟨Nat.succ.inj hn, rfl, rfl⟩
        | cons next rest =>
          rw [onWriteOperation_next hqueue]
          exact ⟨Nat.succ.inj hn, rfl, rfl⟩
    obtain ⟨hlength, hqueued, hdisconnected⟩ := hrest
    obtain ⟨hend, hempty, hsame, hstill⟩ := ih hsound hlength
    rw [List.replicate_succ, run_cons, hstep]
    exact ⟨hend, hempty, hsame.trans hqueued, hstill.trans hdisconnected⟩

/-- Where nothing fails and nobody uses force, a closed connection still writes all it
has taken, and closes its socket exactly then. -/
theorem close_sends_the_rest (mode : ChecksumMode) (key : Xtea.Key) (events : List Event)
    (hclean : ∀ e ∈ events, e.clean = true) :
    let c := run step (opened mode key) events
    let c' := run step c (List.replicate c.messageQueue.length (.written false false))
    (c.socketOpen = false ↔ c.disconnected = true ∧ c.messageQueue = []) ∧
      c'.completed = c.queued.map (frame mode key) ∧
      (c'.socketOpen = false ↔ c.disconnected = true) := by
  intro c c'
  have hsound : Sound mode key c := run_sound (opened_sound mode key) hclean
  obtain ⟨hend, hempty, hqueued, hdisconnected⟩ := drain hsound rfl
  refine ⟨hsound.closed, ?_, ?_⟩
  · rw [← hqueued]
    exact hend.whole hempty
  · rw [← hdisconnected]
    exact hend.closed.trans (and_iff_left hempty)

/-- Two messages, and the close in the middle of the first write. -/
theorem both_messages_go_out :
    let events : List Event := [.send { buffer := fun _ => 1 } false,
      .send { buffer := fun _ => 2 } false, .close false]
    let c := run step (opened .CHECKSUM_ADLER default) events
    let c' := run step c (List.replicate c.messageQueue.length (.written false false))
    (∀ e ∈ events, e.clean = true) ∧ c.messageQueue.length = 2 ∧
      c'.completed = c.queued.map (frame .CHECKSUM_ADLER default) :=
  have hclean : ∀ e ∈ ([.send { buffer := fun _ => 1 } false,
      .send { buffer := fun _ => 2 } false, .close false] : List Event), e.clean = true := by
    decide
  ⟨hclean, rfl, (close_sends_the_rest .CHECKSUM_ADLER default _ hclean).2.1⟩

end ForgottenServer.Net.Outgoing
