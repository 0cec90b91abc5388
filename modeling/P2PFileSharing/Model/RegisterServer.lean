import P2PFileSharing.Lib.Runs
import P2PFileSharing.Model.Defines

/-!
# `CTcpServer` and `CRegisterServer`: accepting, handling, and the polling loop

`Run` starts a thread that accepts connections and then asks every 200 ms
whether to go on; the accepting thread starts one handler thread a connection.
What one of them does between two moments at which the others can interfere is
one step: a section under a lock, one entry of the unlocked loop over
`m_client_info`, one read of the flag, one use of the variable `client_addr`,
which the accept loop declares anew in every round but always in the same place,
and which a handler thread knows only by its address.

`m_all_peers_registered` is not set by the constructor: the instance is a
static one, so it starts as false.
-/

namespace P2PFileSharing

/-- `REGISTER_REQUEST_REGISTER`. -/
def registerRequestRegister : Str := "register_peer".toList

/-- `REGISTER_RESPONSE_ALL_PEERS`. -/
def registerResponseAllPeers : Str := "all_peers".toList

instance neZero_byte : NeZero (256 : Nat) := ⟨by decide⟩

/-- `struct in_addr`, as its four bytes. -/
structure InAddr where
  a : Fin 256
  b : Fin 256
  c : Fin 256
  d : Fin 256
  deriving DecidableEq, Repr

/-- `inet_ntoa`. -/
def inetNtoa (addr : InAddr) : Str :=
  joinString [natToString addr.a, natToString addr.b, natToString addr.c, natToString addr.d] ['.']

/-- `std::atoi`, for a value that fits. -/
def atoi (s : Str) : Int :=
  match readNumber s with
  | none => 0
  | some (neg, n) => signedValue neg n

/-- What `CPeerClient::Register` sends. -/
def registerRequest (peerId : PeerID) : Str :=
  registerRequestRegister ++ [peerMsgTypeDelim] ++ intToString peerId

/-- The peer id `DealWithRequest` reads; on any other text an assertion fails. -/
def requestPeerId (message : Str) : Except Fault PeerID :=
  if '\n' ∈ message then
    let command := message.takeWhile fun c => c ≠ '\n'
    let rest := (message.dropWhile fun c => c ≠ '\n').tail
    if command = registerRequestRegister then .ok (atoi rest) else .error .assertionFailed
  else .error .assertionFailed

/-- The text `SendResponse` sends. -/
def responseText (responseType response : Str) : Str := responseType ++ ['\n'] ++ response

instance partialEquivBEq_peerId : PartialEquivBEq PeerID := inferInstance

structure SClientInfo where
  peerId : PeerID
  ip : Str
  deriving DecidableEq, Repr

/-- What the loop over `m_client_info` adds for an entry. -/
def infoLine (client : PeerID × SClientInfo) : Str :=
  intToString client.1 ++ [' '] ++ client.2.ip ++ ['\n']

/-- A connection: the address it comes from, and the request its peer sends. -/
structure Connection where
  addr : InAddr
  request : Str
  deriving DecidableEq, Repr

/-- Where a handler thread is. -/
inductive HandlerPoint
  /-- `HandleRequest`, before it copies `*client_addr`. -/
  | start
  /-- Its receive loop, with the copy. -/
  | receive (clientAddr : InAddr)
  /-- `DealWithRequest`, before it locks `m_mutex_client_info`. -/
  | register (peerId : PeerID) (clientAddr : InAddr)
  /-- Its loop on `m_all_peers_registered`. -/
  | wait (peerId : PeerID)
  /-- Its loop over `m_client_info`: the response so far and the next entry. -/
  | respond (peerId : PeerID) (message : Str) (entry : Nat)
  /-- Before it locks `m_mutex_exit_count`. -/
  | count (peerId : PeerID)
  | done (peerId : PeerID)
  deriving DecidableEq, Repr

structure HandlerThread where
  connection : Connection
  point : HandlerPoint
  deriving DecidableEq, Repr

/-- Where the accepting thread is. -/
inductive AcceptPoint
  | accept
  /-- After `accept`, before `IsKeepRunning`. -/
  | accepted (connection : Connection)
  | ended
  deriving DecidableEq, Repr

/-- Where `Run` is. -/
inductive RunPoint
  | polling
  /-- The loop is over. -/
  | leaving
  /-- `exit(0)`. -/
  | exited
  deriving DecidableEq, Repr

/-- The members of the server, with what was stored and sent so far, which no step
reads. -/
structure RegisterTables where
  clientInfo : UnorderedMap PeerID SClientInfo
  allPeersRegistered : Bool
  threadExitCount : Nat
  fault : Option Fault
  stored : List (Connection × SClientInfo)
  sent : List (PeerID × Str)

/-- The server process; the accepted connections are part of its history. -/
structure RegisterServer where
  tables : RegisterTables
  clientAddr : InAddr
  accepting : AcceptPoint
  handlers : List HandlerThread
  run : RunPoint
  accepted : List Connection

inductive RegisterLabel
  /-- A connection comes in. -/
  | accept (connection : Connection)
  /-- The accept loop asks `IsKeepRunning` and starts the handler thread. -/
  | startHandler
  /-- A handler thread takes its next step. -/
  | handler (i : Nat)
  /-- `Run` asks `IsKeepRunning`. -/
  | poll
  | exit
  deriving DecidableEq, Repr

section

variable (numOfPeers : Nat)

/-- `IsKeepRunning`. -/
def RegisterTables.isKeepRunning (t : RegisterTables) : Bool :=
  decide (t.threadExitCount < numOfPeers)

/-- The part of `DealWithRequest` under `m_mutex_client_info`. -/
def RegisterTables.register (t : RegisterTables) (connection : Connection) (peerId : PeerID)
    (clientAddr : InAddr) : RegisterTables :=
  let clientInfo := t.clientInfo.insert peerId ⟨peerId, inetNtoa clientAddr⟩
  { t with
    clientInfo := clientInfo
    allPeersRegistered :=
      if clientInfo.size = numOfPeers then true else t.allPeersRegistered
    stored := t.stored ++ [(connection, ⟨peerId, inetNtoa clientAddr⟩)] }

/-- One step of a handler thread. -/
def handlerStep (clientAddr : InAddr) (t : RegisterTables) (connection : Connection) :
    HandlerPoint → Option (RegisterTables × HandlerPoint)
  | .start => some (t, .receive clientAddr)
  | .receive addr =>
      match requestPeerId connection.request with
      | .ok peerId => some (t, .register peerId addr)
      | .error f => some ({ t with fault := some f }, .receive addr)
  | .register peerId addr =>
      some (t.register numOfPeers connection peerId addr, .wait peerId)
  | .wait peerId =>
      if t.allPeersRegistered then some (t, .respond peerId [] 0) else none
  | .respond peerId message entry =>
      match t.clientInfo.entries[entry]? with
      | some client => some (t, .respond peerId (message ++ infoLine client) (entry + 1))
      | none =>
          some
            ({ t with sent := t.sent ++ [(peerId, responseText registerResponseAllPeers message)] },
              .count peerId)
  | .count peerId => some ({ t with threadExitCount := t.threadExitCount + 1 }, .done peerId)
  | .done _ => none

/-- One step of the process; none once it is over. -/
def registerStep (s : RegisterServer) (l : RegisterLabel) : Option RegisterServer :=
  if s.run = .exited ∨ s.tables.fault.isSome then none
  else
    match l with
    | .accept connection =>
        if s.accepting = .accept then
          some
            { s with
              clientAddr := connection.addr
              accepting := .accepted connection
              accepted := s.accepted ++ [connection] }
        else none
    | .startHandler =>
        match s.accepting with
        | .accepted connection =>
            if s.tables.isKeepRunning numOfPeers then
              some
                { s with
                  accepting := .accept
                  handlers := s.handlers ++ [⟨connection, .start⟩] }
            else some { s with accepting := .ended }
        | _ => none
    | .handler i =>
        match s.handlers[i]? with
        | none => none
        | some h =>
            match handlerStep numOfPeers s.clientAddr s.tables h.connection h.point with
            | none => none
            | some (t, point) =>
                some { s with tables := t, handlers := s.handlers.set i ⟨h.connection, point⟩ }
    | .poll =>
        if s.run = .polling then
          some { s with run := if s.tables.isKeepRunning numOfPeers then .polling else .leaving }
        else none
    | .exit => if s.run = .leaving then some { s with run := .exited } else none

/-- The server before `Run`. -/
def initialRegisterServer : RegisterServer where
  tables :=
    { clientInfo := .empty, allPeersRegistered := false, threadExitCount := 0, fault := none
      stored := [], sent := [] }
  clientAddr := ⟨0, 0, 0, 0⟩
  accepting := .accept
  handlers := []
  run := .polling
  accepted := []

/-- The register server as a transition system. -/
def registerServer : System RegisterServer RegisterLabel where
  init s := s = initialRegisterServer
  step s l s' := registerStep numOfPeers s l = some s'

/-- The runs in which every connection that comes in registers one of some peers. -/
def registerServerFor (ids : List PeerID) : System RegisterServer RegisterLabel :=
  (registerServer ids.length).restrict fun _ l =>
    ∀ connection, l = .accept connection →
      ∃ peerId ∈ ids, connection.request = registerRequest peerId

end

end P2PFileSharing
