import P2PFileSharing.Model.Packets
import P2PFileSharing.Model.TcpServer

/-!
# One transfer between two peers

The file client of one peer and a worker of another peer's file server, over one connection.
The client sends its request with one `send`. `HandleClient` takes what its one `recv` returns
for the request, and goes into `SendFile` or `ReceiveFile`. Before a push the client waits for
the two bytes with which `ReceiveFile` notifies it. Then one side is in its loops over `fread`
and `send`, and the other in its loop over `recv`.

What a side sent and the other did not receive is under way; `recv` returns any part of it from
its front, and nothing once all was received and the sender is done. The zero byte that
`HandleClient` writes behind what it received is left out.
-/

namespace P2PFileSharing

/-- A request, the directory of the file server, and what the client can read of the file. -/
structure SessionSetup where
  reqType : ERequestType
  filename : Str
  serverTree : FileTree
  clientFile : Option (List Str)

/-- Where the client is. -/
inductive ClientPoint
  /-- Before `send` in `ExecObtainFile` and `ExecPushFile`. -/
  | request
  /-- `HandlePushResponse` before its `recv`. -/
  | awaitStart
  | sending (x : PacketLoop)
  /-- `HandleObtainResponse`. -/
  | receiving
  | closed
  /-- `HandlePushResponse` returned without closing its socket. -/
  | left
  deriving DecidableEq, Repr

/-- Where the worker is. -/
inductive ServerPoint
  /-- Before `recv` in `HandleClient`. -/
  | request
  | sending (x : PacketLoop)
  /-- `ReceiveFile` before its `send`. -/
  | notify (filename : Str)
  | receiving (filename : Str)
  /-- After its `close`, with the file that `ReceiveFile` opened. -/
  | closed (filename : Option Str)
  /-- Parsing the request read outside an array, or threw. -/
  | stopped (f : Fault)
  deriving DecidableEq, Repr

/-- Both sides, what is under way between them, and what the loop over `recv` returned. -/
structure Session where
  client : ClientPoint
  server : ServerPoint
  toServer : Str
  toClient : Str
  received : List RecvResult
  deriving DecidableEq, Repr

inductive SessionLabel
  /-- The client's `send` of its request. -/
  | request (sent : Int)
  /-- The `recv` of `HandleClient`. -/
  | handle (result : RecvResult)
  /-- `send(socket_fd, "start", 2, 0)`. -/
  | notify (sent : Int)
  /-- The client's `recv` of the notice. -/
  | awaitStart (result : RecvResult)
  | clientSend (l : PacketLabel)
  | serverSend (l : PacketLabel)
  | clientRecv (result : RecvResult)
  | serverRecv (result : RecvResult)
  deriving DecidableEq, Repr

/-- No more bytes will come from the client. -/
def ClientPoint.shut : ClientPoint → Bool
  | .sending x => x.point = .done
  | .closed => true
  | _ => false

/-- No more bytes will come from the server. -/
def ServerPoint.shut : ServerPoint → Bool
  | .sending x => x.point = .done
  | .closed _ | .stopped _ => true
  | _ => false

/-- The file that `ReceiveFile` opened. -/
def ServerPoint.opened : ServerPoint → Option Str
  | .receiving filename => some filename
  | .closed filename => filename
  | _ => none

/-- What a call of `recv` may return of what is under way. -/
def MayReturn (stream : Str) (shut : Bool) (room : Nat) : RecvResult → Prop
  | .failed => True
  | .data bytes =>
      bytes <+: stream ∧ bytes.length ≤ room ∧ (bytes = [] → stream = [] ∧ shut = true)

instance decidableMayReturn (stream : Str) (shut : Bool) (room : Nat) :
    (result : RecvResult) → Decidable (MayReturn stream shut room result)
  | .failed => inferInstanceAs (Decidable True)
  | .data bytes =>
      inferInstanceAs (Decidable (bytes <+: stream ∧ bytes.length ≤ room ∧
        (bytes = [] → stream = [] ∧ shut = true)))

/-- The client after its request: `HandleObtainResponse`, or `HandlePushResponse` if it can open
the file. -/
def SessionSetup.afterRequest (x : SessionSetup) : ClientPoint :=
  match x.reqType with
  | .requestDownloadFile => .receiving
  | .requestPushFile => if x.clientFile.isSome then .awaitStart else .left

/-- The worker after its `recv`. -/
def SessionSetup.handle (x : SessionSetup) : RecvResult → ServerPoint
  | .failed => .closed none
  | .data bytes =>
      match parseRequest bytes with
      | .error f => .stopped f
      | .ok (requestType, filename) =>
          if requestType = ERequestType.requestDownloadFile.toInt then
            match sendFile x.serverTree filename with
            | none => .closed none
            | some packets => .sending (sendFileLoop packets)
          else if requestType = ERequestType.requestPushFile.toInt then .notify filename
          else .closed none

/-- What a call of the sending loops put on the connection. -/
def PacketLoop.sentSince (y x : PacketLoop) : Str := y.sent.drop x.sent.length

/-- The receiving loops go on until a call returns nothing or fails. -/
def RecvResult.isLast (result : RecvResult) : Bool := result.bytes.isEmpty

/-- One call on either side. -/
def sessionStep (x : SessionSetup) (s : Session) : SessionLabel → Option Session
  | .request sent =>
      match s.client, requestFrame x.reqType x.filename with
      | .request, some frame =>
          if sent ≤ 0 then some { s with client := .closed }
          else if sent.toNat ≤ msgBufSize then
            some
              { s with client := x.afterRequest, toServer := s.toServer ++ frame.take sent.toNat }
          else none
      | _, _ => none
  | .handle result =>
      if s.server = .request ∧ MayReturn s.toServer s.client.shut msgBufSize result then
        some { s with server := x.handle result, toServer := s.toServer.drop result.bytes.length }
      else none
  | .notify sent =>
      match s.server with
      | .notify filename =>
          if sent.toNat ≤ 2 then
            some
              { s with
                server := .receiving filename
                toClient := s.toClient ++ "start".toList.take sent.toNat }
          else none
      | _ => none
  | .awaitStart result =>
      if s.client = .awaitStart ∧ MayReturn s.toClient s.server.shut msgBufSize result then
        some
          { s with
            client := .sending (handlePushResponseLoop (x.clientFile.getD []))
            toClient := s.toClient.drop result.bytes.length }
      else none
  | .clientSend l =>
      match s.client with
      | .sending loop =>
          (packetStep loop l).map fun loop' =>
            { s with client := .sending loop', toServer := s.toServer ++ loop'.sentSince loop }
      | _ => none
  | .serverSend l =>
      match s.server with
      | .sending loop =>
          (packetStep loop l).map fun loop' =>
            { s with server := .sending loop', toClient := s.toClient ++ loop'.sentSince loop }
      | _ => none
  | .clientRecv result =>
      if s.client = .receiving ∧
          MayReturn s.toClient s.server.shut fileTransferPacketSize result then
        some
          { s with
            client := if result.isLast then .closed else .receiving
            toClient := s.toClient.drop result.bytes.length
            received := s.received ++ [result] }
      else none
  | .serverRecv result =>
      match s.server with
      | .receiving filename =>
          if MayReturn s.toServer s.client.shut fileTransferPacketSize result then
            some
              { s with
                server := if result.isLast then .closed (some filename) else .receiving filename
                toServer := s.toServer.drop result.bytes.length
                received := s.received ++ [result] }
          else none
      | _ => none

/-- The connection was accepted. -/
def startSession : Session := ⟨.request, .request, [], [], []⟩

/-- A session as a transition system. -/
def session (x : SessionSetup) : System Session SessionLabel where
  init s := s = startSession
  step s l s' := sessionStep x s l = some s'

/-- A call that does not fail, and takes a request whole. -/
def SessionLabel.Succeeds : SessionLabel → Prop
  | .request sent => sent = msgBufSize
  | .handle result => result.bytes.length = msgBufSize
  | .notify sent => 0 < sent
  | .awaitStart result | .clientRecv result | .serverRecv result => result ≠ .failed
  | .clientSend l | .serverSend l => TransferLabel.Succeeds (.sender l)

/-- The sessions in which no call fails and the request arrives in one piece. -/
def reliableSession (x : SessionSetup) : System Session SessionLabel :=
  (session x).restrict fun _ l => l.Succeeds

end P2PFileSharing
