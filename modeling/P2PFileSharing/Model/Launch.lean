import P2PFileSharing.Model.PeerClient
import P2PFileSharing.Model.RegisterClient
import P2PFileSharing.Model.SharedFiles
import P2PFileSharing.Model.Topology

/-!
# From the start of the processes to the threads of `CPeerClient`

`main` starts the thread of the peer server, which begins to listen at some time, and calls `Run`.
`Run` reads the settings, the shared directory and the topology, registers, and connects to the
neighbours one after the other; only then it starts its threads. Meanwhile the register server
accepts and answers. A step is one call of a peer with the computation up to the next one, or a
step of the register server.

A peer's connection to the register server waits to be accepted. What the server sent to a peer
is received in one call, and any part of it from the front may be what the call returns.
-/

namespace P2PFileSharing

/-! ## `CPeerClient::LoadSettings` -/

/-- What `settings.config` sets. -/
structure Settings where
  replicationFactor : Int
  registerServerIp : Str
  ensureQueryhitFile : Str
  largeFileName : Str
  deriving DecidableEq, Repr

/-- The members before `LoadSettings`. -/
def initialSettings : Settings := ⟨0, [], [], []⟩

def replicationFactorKey : Str := "replication_factor".toList

def serverIpKey : Str := "server_ip".toList

def ensureQueryHitFileKey : Str := "ensure_query_hit_file".toList

def largeFileTransferKey : Str := "large_file_transfer".toList

/-- The loop of `LoadSettings` on one line. -/
def readSetting (s : Settings) (line : Str) : Except Fault Settings := do
  let lineVec := splitString line [' ']
  let key ← field lineVec 0
  if key = replicationFactorKey then
    let value ← field lineVec 1
    let factor ← stoi value
    return { s with replicationFactor := factor }
  else if key = serverIpKey then
    let value ← field lineVec 1
    return { s with registerServerIp := value }
  else if key = ensureQueryHitFileKey then
    let value ← field lineVec 1
    return { s with ensureQueryhitFile := value }
  else if key = largeFileTransferKey then
    let value ← field lineVec 1
    return { s with largeFileName := value }
  else return s

/-- `LoadSettings` with its file open. -/
def loadSettings (text : Str) : Except Fault Settings :=
  (getlines text).foldlM readSetting initialSettings

def settingsFileName : Str := "settings.config".toList

/-! ## The processes -/

/-- The hosts, and the working directory of each peer: its configuration files and the rest. -/
structure LaunchSetup where
  peers : List PeerID
  registerAddr : InAddr
  addr : PeerID → InAddr
  topologyType : ETopologyType
  files : PeerID → Str → Option Str
  tree : PeerID → FileTree

/-- What `Run` has put into the members of `CPeerClient`. -/
structure ClientMembers where
  settings : Settings
  files : List Str
  peerIdToIp : UnorderedMap PeerID Str
  connections : PeerConnections

/-- Where `Run` is. -/
inductive LaunchPoint
  | load
  /-- `Register` before its `connect`. -/
  | register (m : ClientMembers)
  /-- `Register` before its `recv`. -/
  | response (m : ClientMembers)
  /-- `ConnectToPeers`, with the entries it has before it. -/
  | connect (m : ClientMembers) (rest : List (PeerID × Str))
  /-- The threads are started. -/
  | started (m : ClientMembers)
  /-- `exit`, or a directory that could not be opened. -/
  | exited
  | stopped (f : Fault)

/-- The process has ended. -/
def LaunchPoint.over : LaunchPoint → Bool
  | .exited | .stopped _ => true
  | _ => false

structure Launch where
  server : RegisterServer
  /-- Connections to the register server that it has not accepted. -/
  calls : List Connection
  listening : PeerID → Bool
  clients : PeerID → LaunchPoint

inductive LaunchLabel
  | server (l : RegisterLabel)
  /-- The peer server's `listen`. -/
  | listen (p : PeerID)
  | load (p : PeerID)
  /-- `connect` and `send` of `Register`. -/
  | register (p : PeerID)
  /-- `recv` of `Register`. -/
  | response (p : PeerID) (result : RecvResult)
  /-- A round of `ConnectToPeers`, or its end. -/
  | connect (p : PeerID)

namespace LaunchSetup

variable (x : LaunchSetup)

/-- Where a peer's server listens. -/
def peerServerSocket (p : PeerID) : PeerSocket := peerSocket (p, inetNtoa (x.addr p))

/-- What a peer's `Register` sends, from where it is. -/
def call (p : PeerID) : Connection := ⟨x.addr p, registerRequest p⟩

/-- What is listening at a socket. -/
def listensAt (s : Launch) (socket : PeerSocket) : Bool :=
  x.peers.any fun q =>
    s.listening q && !(s.clients q).over && decide (x.peerServerSocket q = socket)

/-- `LoadSettings`, `LoadFileInfo` and `LoadTopology`. -/
def load (p : PeerID) : LaunchPoint :=
  match x.files p settingsFileName with
  | none => .exited
  | some text =>
      match loadSettings text with
      | .error f => .stopped f
      | .ok settings =>
          match loadFileInfo (x.tree p) [] with
          | none => .exited
          | some (_, files) =>
              match loadTopology (x.files p) x.topologyType p with
              | .error f => .stopped f
              | .ok peerIdToIp => .register ⟨settings, files, peerIdToIp, ⟨[], .empty⟩⟩

end LaunchSetup

/-- `Register` from what its `recv` returns, and the part of `HandleRegisterResponse` before
`ConnectToPeers`. A string that does not end in its array is undefined. -/
def ClientMembers.response (me : PeerID) (m : ClientMembers) : RecvResult → LaunchPoint
  | .failed => .exited
  | .data bytes =>
      match cString? (registerBuffer bytes) with
      | none => .stopped .missingField
      | some message =>
          match readRegisterResponse me m.peerIdToIp message with
          | .error f => .stopped f
          | .ok none => .started m
          | .ok (some peerIdToIp) =>
              .connect { m with peerIdToIp := peerIdToIp } peerIdToIp.entries

/-- What `recv` may return to a peer: a front part of what was sent to it, nothing when the server
is gone. -/
def Launch.MayReceive (s : Launch) (p : PeerID) : RecvResult → Prop
  | .failed => True
  | .data bytes =>
      bytes.length ≤ msgBufSize ∧
        ((bytes ≠ [] ∧ ∃ r ∈ s.server.tables.sent, r.1 = p ∧ bytes <+: r.2) ∨
          bytes = [] ∧ s.server.run = .exited)

instance decidableMayReceive (s : Launch) (p : PeerID) :
    (result : RecvResult) → Decidable (s.MayReceive p result)
  | .failed => inferInstanceAs (Decidable True)
  | .data bytes =>
      inferInstanceAs (Decidable (bytes.length ≤ msgBufSize ∧
        ((bytes ≠ [] ∧ ∃ r ∈ s.server.tables.sent, r.1 = p ∧ bytes <+: r.2) ∨
          bytes = [] ∧ s.server.run = .exited)))

/-- Replacing where a peer is. -/
def Launch.setClient (s : Launch) (p : PeerID) (point : LaunchPoint) : Launch :=
  { s with clients := fun q => if q = p then point else s.clients q }

/-- One step of a peer or of the register server. -/
def launchStep (x : LaunchSetup) (s : Launch) : LaunchLabel → Option Launch
  | .server (.accept connection) =>
      match s.calls with
      | first :: rest =>
          if first = connection then
            (registerStep x.peers.length s.server (.accept connection)).map fun server =>
              { s with server := server, calls := rest }
          else none
      | [] => none
  | .server l =>
      (registerStep x.peers.length s.server l).map fun server => { s with server := server }
  | .listen p =>
      if p ∈ x.peers ∧ s.listening p = false ∧ (s.clients p).over = false then
        some { s with listening := fun q => if q = p then true else s.listening q }
      else none
  | .load p =>
      match s.clients p with
      | .load => if p ∈ x.peers then some (s.setClient p (x.load p)) else none
      | _ => none
  | .register p =>
      match s.clients p with
      | .register m =>
          if s.server.run ≠ .exited ∧ m.settings.registerServerIp = inetNtoa x.registerAddr then
            some { s.setClient p (.response m) with calls := s.calls ++ [x.call p] }
          else some (s.setClient p .exited)
      | _ => none
  | .response p result =>
      match s.clients p with
      | .response m =>
          if s.MayReceive p result then some (s.setClient p (m.response p result)) else none
      | _ => none
  | .connect p =>
      match s.clients p with
      | .connect m [] => some (s.setClient p (.started m))
      | .connect m (entry :: rest) =>
          match connectToPeer (x.listensAt s) p m.connections entry with
          | some connections =>
              some (s.setClient p (.connect { m with connections := connections } rest))
          | none => some (s.setClient p .exited)
      | _ => none

/-- Before any process has done anything. -/
def startLaunch : Launch := ⟨initialRegisterServer, [], fun _ => false, fun _ => .load⟩

/-- A launch as a transition system. -/
def launch (x : LaunchSetup) : System Launch LaunchLabel where
  init s := s = startLaunch
  step s l s' := launchStep x s l = some s'

/-- What has to be in time: a handler thread copies the address before the next connection is
accepted, a response is received whole, and a peer connects to servers that listen. A poll of the
register server that goes on is left out. -/
def Launch.InTime (x : LaunchSetup) (s : Launch) : LaunchLabel → Prop
  | .server (.accept _) => ∀ h ∈ s.server.handlers, h.point ≠ .start
  | .server .poll => s.server.tables.isKeepRunning x.peers.length = false
  | .response p result => ∃ r ∈ s.server.tables.sent, r.1 = p ∧ result = .data r.2
  | .connect p =>
      match s.clients p with
      | .connect _ (entry :: _) => entry.1 = p ∨ x.listensAt s (peerSocket entry) = true
      | _ => True
  | _ => True

/-- The launches in which all of it is. -/
def timelyLaunch (x : LaunchSetup) : System Launch LaunchLabel :=
  (launch x).restrict fun s l => s.InTime x l

end P2PFileSharing
