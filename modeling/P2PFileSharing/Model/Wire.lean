import P2PFileSharing.Lib.Framing
import P2PFileSharing.Lib.Runs
import P2PFileSharing.Model.PeerClient

/-!
# The links between peers, byte by byte

Two threads of a peer write to its sockets, `BroadcastProcessThread` and, in
`RelayQueryHit`, `HandleMessageThread`, each with `m_send_buffer_mutex` held
around its loops over partial writes. At the other end of each link one handler
thread of the peer server fills its buffer from partial reads and hands every
full buffer to `DealWithRequest`, which takes the text before the first NUL to
the message queue of the peer.

A link keeps every byte that was not yet received in order; a step writes or
reads any positive number of bytes that the call asks for. Which items are queued
and which hits are relayed is up to the rest of the peer.
-/

namespace P2PFileSharing

/-- The buffer `BroadcastProcessThread` and `RelayQueryHit` send for a message. -/
def msgFrame (message : Str) : Str := pad msgBufSize '\x00' message

/-- `std::string(message_char)`. -/
def cString (buffer : Str) : Str := unpad '\x00' buffer

/-- The two threads that send. -/
inductive SendThread
  | broadcast | message
  deriving DecidableEq, Repr

/-- What a thread sends with the mutex held: a broadcast item, or a hit to the upstream
peer that `m_queries` names. -/
inductive Sending
  | broadcast (message : Str) (exclude : PeerID)
  | hit (message : Str) (upstream : PeerID)
  deriving DecidableEq, Repr

def Sending.message : Sending → Str
  | .broadcast message _ => message
  | .hit message _ => message

/-- The peers the loops of the two functions go through. -/
def Sending.targets (connected : List PeerID) : Sending → List PeerID
  | .broadcast _ exclude => connected.filter fun q => q ≠ exclude
  | .hit _ upstream => [upstream]

/-- Where a sending thread is. -/
inductive SendPoint
  /-- Waiting for work. -/
  | idle
  /-- `BroadcastProcessThread` before it locks `m_send_buffer_mutex`. -/
  | toBroadcast (message : Str) (exclude : PeerID)
  /-- `RelayQueryHit` before it does. -/
  | toRelay (message : Str)
  /-- In the loop over partial writes: the peers from the current one on, and `sentBytes`. -/
  | sending (peers : List PeerID) (message : Str) (sentBytes : Nat)
  deriving DecidableEq, Repr

/-- The sending side of a peer, with the items queued and the mutex taken so far. -/
structure Sender where
  broadcastQueue : List (Str × PeerID)
  point : SendThread → SendPoint
  sendBufferMutex : Bool
  items : List (Str × PeerID)
  order : List Sending

/-- A link: what is under way, the buffer of the handler thread at its end, the message
between `DealWithRequest` and the queue, and the bytes written and buffers dealt with
so far. -/
structure Wire where
  stream : Str
  buffer : Str
  handling : Option Str
  written : Str
  dealt : List Str

/-- All peers and links; the messages pushed to the queue of each peer, and from where. -/
structure Wires where
  senders : PeerID → Sender
  wires : PeerID → PeerID → Wire
  messages : PeerID → List (PeerID × Str)

inductive WireLabel
  /-- `Broadcast`. -/
  | broadcast (p : PeerID) (message : Str) (exclude : PeerID)
  /-- `BroadcastProcessThread` pops its queue. -/
  | takeBroadcast (p : PeerID)
  /-- `HandleMessageThread` calls `RelayQueryHit`. -/
  | relayQueryHit (p : PeerID) (message : Str)
  /-- A thread takes `m_send_buffer_mutex`; for a hit, `m_queries` names the upstream peer. -/
  | lock (p : PeerID) (th : SendThread) (upstream : PeerID)
  /-- `send` takes some bytes. -/
  | send (p : PeerID) (th : SendThread) (bytes : Nat)
  | unlock (p : PeerID) (th : SendThread)
  /-- `recv` returns some bytes. -/
  | recv (p q : PeerID) (bytes : Nat)
  /-- `DealWithRequest` with a full buffer. -/
  | deal (p q : PeerID)
  /-- `HandleMessage`. -/
  | handleMessage (p q : PeerID)
  deriving DecidableEq, Repr

def Wires.setSender (s : Wires) (p : PeerID) (x : Sender) : Wires :=
  { s with senders := Function.update s.senders p x }

def Wires.setWire (s : Wires) (p q : PeerID) (w : Wire) : Wires :=
  { s with wires := Function.update s.wires p (Function.update (s.wires p) q w) }

def Sender.setPoint (x : Sender) (th : SendThread) (point : SendPoint) : Sender :=
  { x with point := Function.update x.point th point }

/-- What a thread that waits for the mutex will send. -/
def SendPoint.sending? (upstream : PeerID) : SendPoint → Option Sending
  | .toBroadcast message exclude => some (.broadcast message exclude)
  | .toRelay message => some (.hit message upstream)
  | _ => none

/-- The thread takes the mutex; the assertion of `RelayQueryHit` holds of the peer. -/
def Sender.lock (connected : List PeerID) (x : Sender) (th : SendThread) (job : Sending) :
    Option Sender :=
  if x.sendBufferMutex = false ∧ ∀ q ∈ job.targets connected, q ∈ connected then
    some
      { x.setPoint th (.sending (job.targets connected) job.message 0) with
        sendBufferMutex := true
        order := x.order ++ [job] }
  else none

/-- The loop over partial writes after a `send`: on to the next byte, or the next peer. -/
def sendingAfter (q : PeerID) (rest : List PeerID) (message : Str) (sentBytes : Nat) : SendPoint :=
  if sentBytes < msgBufSize then .sending (q :: rest) message sentBytes
  else .sending rest message 0

def Wire.write (w : Wire) (bytes : Str) : Wire :=
  { w with stream := w.stream ++ bytes, written := w.written ++ bytes }

def Wire.recv (w : Wire) (bytes : Nat) : Wire :=
  { w with stream := w.stream.drop bytes, buffer := w.buffer ++ w.stream.take bytes }

/-- `CPeerServer::DealWithRequest`, after which the buffer is cleared. -/
def Wire.deal (w : Wire) : Wire :=
  { w with
    buffer := []
    handling := if cString w.buffer = [] then none else some (cString w.buffer)
    dealt := w.dealt ++ [w.buffer] }

/-- One step. -/
def wireStep (net : Setup) (s : Wires) : WireLabel → Option Wires
  | .broadcast p message exclude =>
      let x := s.senders p
      some (s.setSender p
        { x with
          broadcastQueue := x.broadcastQueue ++ [(message, exclude)]
          items := x.items ++ [(message, exclude)] })
  | .takeBroadcast p =>
      let x := s.senders p
      match x.point .broadcast, x.broadcastQueue with
      | .idle, (message, exclude) :: rest =>
          some (s.setSender p
            { x.setPoint .broadcast (.toBroadcast message exclude) with broadcastQueue := rest })
      | _, _ => none
  | .relayQueryHit p message =>
      let x := s.senders p
      match x.point .message with
      | .idle => some (s.setSender p (x.setPoint .message (.toRelay message)))
      | _ => none
  | .lock p th upstream =>
      match ((s.senders p).point th).sending? upstream with
      | none => none
      | some job =>
          match (s.senders p).lock (net.peerIdToSockfd p) th job with
          | none => none
          | some x => some (s.setSender p x)
  | .send p th bytes =>
      match (s.senders p).point th with
      | .sending (q :: rest) message sentBytes =>
          if 0 < bytes ∧ bytes ≤ msgBufSize - sentBytes then
            let point := sendingAfter q rest message (sentBytes + bytes)
            let sent := ((msgFrame message).drop sentBytes).take bytes
            some ((s.setSender p ((s.senders p).setPoint th point)).setWire p q
              ((s.wires p q).write sent))
          else none
      | _ => none
  | .unlock p th =>
      match (s.senders p).point th with
      | .sending [] _ _ =>
          some (s.setSender p { (s.senders p).setPoint th .idle with sendBufferMutex := false })
      | _ => none
  | .recv p q bytes =>
      let w := s.wires p q
      if w.handling = none ∧ 0 < bytes ∧ bytes ≤ msgBufSize - w.buffer.length ∧
          bytes ≤ w.stream.length then
        some (s.setWire p q (w.recv bytes))
      else none
  | .deal p q =>
      let w := s.wires p q
      if w.handling = none ∧ w.buffer.length = msgBufSize then some (s.setWire p q w.deal)
      else none
  | .handleMessage p q =>
      match (s.wires p q).handling with
      | none => none
      | some message =>
          some
            { s.setWire p q { s.wires p q with handling := none } with
              messages := Function.update s.messages q (s.messages q ++ [(p, message)]) }

/-- No message yet. -/
def initialWires : Wires where
  senders _ :=
    { broadcastQueue := [], point := fun _ => .idle, sendBufferMutex := false
      items := [], order := [] }
  wires _ _ := { stream := [], buffer := [], handling := none, written := [], dealt := [] }
  messages _ := []

/-- A message that fits a frame and can be told from the filling. -/
def Sendable (message : Str) : Prop :=
  message ≠ [] ∧ '\x00' ∉ message ∧ message.length < msgBufSize

instance (message : Str) : Decidable (Sendable message) := inferInstanceAs (Decidable (_ ∧ _ ∧ _))

/-- The message that enters with a step. -/
def WireLabel.message? : WireLabel → Option Str
  | .broadcast _ message _ | .relayQueryHit _ message => some message
  | _ => none

/-- The links as a transition system, for messages that can be sent. -/
def wires (net : Setup) : System Wires WireLabel where
  init s := s = initialWires
  step s l s' := (∀ message, l.message? = some message → Sendable message) ∧
    wireStep net s l = some s'

end P2PFileSharing
