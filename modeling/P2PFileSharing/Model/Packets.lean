import P2PFileSharing.Lib.Runs
import P2PFileSharing.Model.FileTransfer

/-!
# The loops of a transfer, call by call

`SendFile` and `HandlePushResponse` send a file with the same two loops: a packet is read
into a zeroed buffer, `send` takes it piece by piece, and a packet that is not full is the
last. A call of `send` that fails ends the inner loop and nothing else. At the other end
`HandleObtainResponse` and `ReceiveFile` take what each `recv` returns until one returns
nothing or fails; what they make of it is `writeReceived`.

A step is one call with the computation up to the next one. What was sent and not yet
received is under way, and `recv` returns any part of it from its front.
-/

namespace P2PFileSharing

/-- Where the sending loops are. -/
inductive PacketPoint
  /-- Before `memset` and `fread`. -/
  | read
  /-- In the loop over `send`. -/
  | send (msgBuffer : Str) (readSize bytesSent : Nat)
  /-- After `shutdown`. -/
  | done
  deriving DecidableEq, Repr

/-- The sending side: what `fread` will return, what the calls of `send` returned, and the bytes
they put on the connection. -/
structure PacketLoop where
  unread : List Str
  point : PacketPoint
  results : List Int
  sent : Str
  deriving DecidableEq, Repr

inductive PacketLabel
  | fread
  | send (sent : Int)
  deriving DecidableEq, Repr

/-- After the inner loop: a packet that is not full was the last. -/
def afterPacket (readSize : Nat) : PacketPoint :=
  if readSize < fileTransferPacketSize then .done else .read

/-- The condition of the inner loop. -/
def sendLoop (msgBuffer : Str) (readSize bytesSent : Nat) : PacketPoint :=
  if bytesSent < readSize then .send msgBuffer readSize bytesSent else afterPacket readSize

/-- One call of the sending side; `send` takes no more bytes than it is given. -/
def packetStep (s : PacketLoop) : PacketLabel → Option PacketLoop
  | .fread =>
      match s.point, s.unread with
      | .read, packet :: rest =>
          let msgBuffer := pad fileTransferPacketSize '\x00' packet
          some { s with unread := rest, point := sendLoop msgBuffer packet.length 0 }
      | _, _ => none
  | .send sent =>
      match s.point with
      | .send msgBuffer readSize bytesSent =>
          if sent ≤ 0 then
            some { s with point := afterPacket readSize, results := s.results ++ [sent] }
          else if sent.toNat ≤ readSize - bytesSent then
            some
              { s with
                point := sendLoop msgBuffer readSize (bytesSent + sent.toNat)
                results := s.results ++ [sent]
                sent := s.sent ++ (msgBuffer.drop bytesSent).take sent.toNat }
          else none
      | _ => none

/-- `SendFile` with its file open, from the packets that `sendFile` says it reads. -/
def sendFileLoop (packets : List Str) : PacketLoop := ⟨packets, .read, [], []⟩

/-- `HandlePushResponse` when the server has notified it. -/
def handlePushResponseLoop (packets : List Str) : PacketLoop := ⟨packets, .read, [], []⟩

/-- The sending side as a transition system. -/
def sending (start : PacketLoop) : System PacketLoop PacketLabel where
  init s := s = start
  step s l s' := packetStep s l = some s'

/-! ## Both sides -/

/-- A connection: the sender, how many of the bytes it sent were received, what the calls of
`recv` returned, and whether the receiving loop goes on. -/
structure Transfer where
  sender : PacketLoop
  taken : Nat
  received : List RecvResult
  receiving : Bool
  deriving DecidableEq, Repr

inductive TransferLabel
  | sender (l : PacketLabel)
  | recv (result : RecvResult)
  deriving DecidableEq, Repr

/-- What `recv` may return: bytes from the front of what is under way, and nothing once all of
it was received and the sender has shut its side down. -/
def Transfer.CanReceive (s : Transfer) (bytes : Str) : Prop :=
  bytes <+: s.sender.sent.drop s.taken ∧ bytes.length ≤ fileTransferPacketSize ∧
    (bytes = [] → s.taken = s.sender.sent.length ∧ s.sender.point = .done)

instance decidableCanReceive (s : Transfer) (bytes : Str) : Decidable (s.CanReceive bytes) :=
  inferInstanceAs (Decidable (_ ∧ _ ∧ _))

/-- One call on either side. -/
def transferStep (s : Transfer) : TransferLabel → Option Transfer
  | .sender l =>
      match packetStep s.sender l with
      | some x => some { s with sender := x }
      | none => none
  | .recv .failed =>
      if s.receiving then
        some { s with received := s.received ++ [.failed], receiving := false }
      else none
  | .recv (.data bytes) =>
      if s.receiving ∧ s.CanReceive bytes then
        some
          { s with
            taken := s.taken + bytes.length
            received := s.received ++ [.data bytes]
            receiving := !bytes.isEmpty }
      else none

/-- Nothing was received yet. -/
def startTransfer (sender : PacketLoop) : Transfer := ⟨sender, 0, [], true⟩

/-- A transfer as a transition system. -/
def transfer (sender : PacketLoop) : System Transfer TransferLabel where
  init s := s = startTransfer sender
  step s l s' := transferStep s l = some s'

/-- A call that does not fail. -/
def TransferLabel.Succeeds : TransferLabel → Prop
  | .sender .fread => True
  | .sender (.send sent) => 0 < sent
  | .recv result => result ≠ .failed

/-- The transfers in which no call fails. -/
def reliableTransfer (sender : PacketLoop) : System Transfer TransferLabel :=
  (transfer sender).restrict fun _ l => l.Succeeds

end P2PFileSharing
