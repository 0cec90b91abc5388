import P2PFileSharing.Model.Network
import P2PFileSharing.Model.Wire

/-!
# The network, byte by byte

The peers of the network over links that carry bytes. `send` writes as much of a frame as it
likes, and the thread that called it is in its loop until the frame is out; the handler thread
at the other end fills its buffer as the bytes come, and a full buffer becomes a message. So
between the section of a thread that sends and the message in the receiver's queue there are
any number of steps, of any threads.

`m_send_buffer_mutex` is held as long as the broadcast thread is in its loop over the peers,
and as long as a thread is in a loop over partial writes.
-/

namespace P2PFileSharing

/-- A frame that a thread is sending, and how much of it is out. -/
structure Transmission where
  target : PeerID
  message : Str
  sentBytes : Nat

/-- The peers, what each thread is sending, the links, and the history. -/
structure ByteNetwork where
  peers : PeerID → Peer
  sending : PeerID → Thread → List Transmission
  wires : PeerID → PeerID → Wire
  log : List (PeerID × Event Str)

inductive ByteLabel
  /-- A thread runs its next section. -/
  | run (p : PeerID) (th : Thread) (now : Int)
  /-- A thread without work pops its queue, reads a command or wakes up. -/
  | start (l : Label)
  /-- `send` takes some bytes. -/
  | send (p : PeerID) (th : Thread) (bytes : Nat)
  /-- `recv` returns some bytes. -/
  | recv (p q : PeerID) (bytes : Nat)
  /-- `DealWithRequest` with a full buffer. -/
  | deal (p q : PeerID)
  /-- `HandleMessage`. -/
  | handleMessage (p q : PeerID)

/-- The sections that begin by taking `m_send_buffer_mutex`. -/
def Section.locksSendBuffer : Section → Bool
  | .lockSendBuffer _ _ | .relayQueryHit _ _ => true
  | _ => false

/-- The thread a choice gives work to. -/
def Label.start? : Label → Option (PeerID × Thread)
  | .takeMessage p => some (p, .message)
  | .takeBroadcast p => some (p, .broadcast)
  | .command p _ => some (p, .command)
  | .wake p _ => some (p, .mantain)
  | .run _ _ _ | .deliver _ _ => none

def Thread.all : List Thread := [.command, .replicate, .message, .broadcast, .mantain]

/-- The peer can take a step. -/
def ByteNetwork.alive (net : Setup) (b : ByteNetwork) (p : PeerID) : Prop :=
  p ∈ net.peers ∧ (b.peers p).tables.fault = none

instance (net : Setup) (b : ByteNetwork) (p : PeerID) : Decidable (b.alive net p) :=
  inferInstanceAs (Decidable (_ ∧ _))

/-- `m_send_buffer_mutex` is taken. -/
def ByteNetwork.sendBufferTaken (b : ByteNetwork) (p : PeerID) : Bool :=
  (b.peers p).tables.sendBufferMutex || Thread.all.any fun th => !(b.sending p th).isEmpty

def ByteNetwork.setSending (b : ByteNetwork) (p : PeerID) (th : Thread)
    (sending : List Transmission) : PeerID → Thread → List Transmission :=
  Function.update b.sending p (Function.update (b.sending p) th sending)

def ByteNetwork.setWire (b : ByteNetwork) (p q : PeerID) (w : Wire) :
    PeerID → PeerID → Wire :=
  Function.update b.wires p (Function.update (b.wires p) q w)

/-- A section's outcome put into effect; the thread goes into the loop of what it sends. -/
def ByteNetwork.commit (b : ByteNetwork) (p : PeerID) (th : Thread) (rest : List Section)
    (o : Outcome) : ByteNetwork where
  peers :=
    Function.update b.peers p
      { tables := o.tables
        threads := Function.update (b.peers p).threads th (o.next ++ rest)
        broadcastQueue := (b.peers p).broadcastQueue ++ o.queued
        messagesQueue := (b.peers p).messagesQueue }
  sending := b.setSending p th (o.sent.map fun x => ⟨x.1, x.2, 0⟩)
  wires := b.wires
  log := b.log ++ (o.events ++ o.sent.map fun x => Event.sent x.1 x.2).map (p, ·)

/-- The loop over partial writes after a `send`. -/
def Transmission.advance (tx : Transmission) (bytes : Nat) : List Transmission :=
  if tx.sentBytes + bytes < msgBufSize then [{ tx with sentBytes := tx.sentBytes + bytes }] else []

/-- The peers, without what is on the links. -/
def ByteNetwork.peersOnly (b : ByteNetwork) : Network where
  peers := b.peers
  sockets _ _ := []
  log := b.log

/-- One step, if the choice is possible. -/
def byteStep (net : Setup) (b : ByteNetwork) : ByteLabel → Option ByteNetwork
  | .run p th now =>
      if b.alive net p ∧ IsInt64 now ∧ b.sending p th = [] then
        match (b.peers p).threads th with
        | [] => none
        | sec :: rest =>
            if sec.locksSendBuffer ∧ b.sendBufferTaken p then none
            else (exec net p now (b.peers p).tables sec).map (b.commit p th rest)
      else none
  | .start l =>
      match l.start? with
      | none => none
      | some (p, th) =>
          if (b.sending p th).isEmpty then
            (step net b.peersOnly l).map fun s => { b with peers := s.peers, log := s.log }
          else none
  | .send p th bytes =>
      if b.alive net p then
        match b.sending p th with
        | [] => none
        | tx :: rest =>
            if 0 < bytes ∧ bytes ≤ msgBufSize - tx.sentBytes then
              let sent := ((msgFrame tx.message).drop tx.sentBytes).take bytes
              some
                { b with
                  sending := b.setSending p th (tx.advance bytes ++ rest)
                  wires := b.setWire p tx.target ((b.wires p tx.target).write sent) }
            else none
      else none
  | .recv p q bytes =>
      let w := b.wires p q
      if b.alive net q ∧ w.handling = none ∧ 0 < bytes ∧ bytes ≤ msgBufSize - w.buffer.length ∧
          bytes ≤ w.stream.length then
        some { b with wires := b.setWire p q (w.recv bytes) }
      else none
  | .deal p q =>
      let w := b.wires p q
      if b.alive net q ∧ w.handling = none ∧ w.buffer.length = msgBufSize then
        some { b with wires := b.setWire p q w.deal }
      else none
  | .handleMessage p q =>
      if b.alive net q then
        match (b.wires p q).handling with
        | none => none
        | some message =>
            some
              { b with
                peers :=
                  Function.update b.peers q
                    { b.peers q with
                      messagesQueue := (b.peers q).messagesQueue ++ [message] }
                wires := b.setWire p q { b.wires p q with handling := none }
                log := b.log ++ [(q, .received p message)] }
      else none

def initialByteNetwork (net : Setup) : ByteNetwork where
  peers := initialPeer net
  sending _ _ := []
  wires _ _ := { stream := [], buffer := [], handling := none, written := [], dealt := [] }
  log := []

/-! ## What fits a frame -/

/-- A name as long as a file's can be, without the filling of a frame. -/
def FitsName (name : Str) : Prop := name.length ≤ 255 ∧ '\x00' ∉ name

instance (name : Str) : Decidable (FitsName name) := inferInstanceAs (Decidable (_ ∧ _))

/-- `Run` reads a command into 100 bytes, up to the first NUL. -/
def Command.Fits : Command → Prop
  | .query f | .obtain f | .invQuery f | .replicate f => FitsName f.1
  | _ => True

instance (cmd : Command) : Decidable cmd.Fits := by
  cases cmd <;> unfold Command.Fits <;> infer_instance

def Label.Fits : Label → Prop
  | .command _ cmd => cmd.Fits
  | _ => True

instance (l : Label) : Decidable l.Fits := by
  cases l <;> unfold Label.Fits <;> infer_instance

def ByteLabel.Fits : ByteLabel → Prop
  | .start l => l.Fits
  | _ => True

/-- The names that a network starts with. -/
structure Setup.Fits (net : Setup) : Prop where
  files : ∀ p, ∀ f ∈ net.files p, FitsName f
  ip : ∀ p, FitsName (net.ip p)
  ensure : ∀ p, FitsName (net.ensureQueryhitFile p)
  large : ∀ p, FitsName (net.largeFileName p)

/-- The network with bytes on its links. -/
def byteNetwork (net : Setup) : System ByteNetwork ByteLabel where
  init b := b = initialByteNetwork net
  step b l b' := l.Fits ∧ byteStep net b l = some b'

/-- The network with messages on its links, for commands that fit. -/
def fittingNetwork (net : Setup) : System Network Label :=
  (network net).restrict fun _ l => l.Fits

/-! ## What is under way, as messages -/

/-- What a thread has still to write to a peer. -/
def Transmission.missing (q : PeerID) (tx : Transmission) : Str :=
  if tx.target = q then (msgFrame tx.message).drop tx.sentBytes else []

def ByteNetwork.missing (b : ByteNetwork) (p q : PeerID) : Str :=
  Thread.all.flatMap fun th => (b.sending p th).flatMap (Transmission.missing q)

/-- The bytes between the sections of one peer that send and the buffers of another. -/
def ByteNetwork.underWay (b : ByteNetwork) (p q : PeerID) : Str :=
  (b.wires p q).buffer ++ ((b.wires p q).stream ++ b.missing p q)

/-- The network with the messages that the bytes on its links are. -/
def ByteNetwork.messages (b : ByteNetwork) : Network where
  peers := b.peers
  sockets p q :=
    (b.wires p q).handling.toList ++ (wholeFrames msgBufSize (b.underWay p q)).map cString
  log := b.log

end P2PFileSharing
