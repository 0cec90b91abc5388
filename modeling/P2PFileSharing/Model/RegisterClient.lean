import P2PFileSharing.Model.Lines
import P2PFileSharing.Model.RegisterServer
import P2PFileSharing.Model.Wire

/-!
# `CPeerClient::Register`: reading the response, connecting to the peers

`Register` makes one call of `recv` into a zeroed array of `MSG_BUF_SIZE` bytes and hands the
array on as a C string. `HandleRegisterResponse` finds the keys of `m_peer_id_to_ip` already
there, put in by `LoadTopology`, fills in the addresses, and `ConnectToPeers` goes through
the map. A string that is not ended inside its array is undefined.
-/

namespace P2PFileSharing

/-- `PEER_SERVER_PORT`. -/
def peerServerPort : Int := 2234

/-- `GetPeerServerPort`. -/
def getPeerServerPort (peer : PeerID) : Int := wrapInt (peerServerPort + peer)

/-- The array after `memset` and a `recv` that returned these bytes. -/
def registerBuffer (received : Str) : Str := pad msgBufSize '\x00' received

/-- The C string in an array, if it ends there. -/
def cString? (array : Str) : Option Str :=
  if array.contains '\x00' then some (cString array) else none

/-- What `Register` hands to `HandleRegisterResponse` when the network delivers a response in one
piece. -/
def registerMessage (sent : Str) : Option Str := cString? (registerBuffer (sent.take msgBufSize))

/-- A socket that `ConnectToPeers` opened: what it was connected to. -/
structure PeerSocket where
  ip : Str
  port : Int
  deriving DecidableEq, Repr

/-- The sockets in the order they were opened, and `m_peer_id_to_sockfd`; a descriptor is a
place in that order. -/
structure PeerConnections where
  opened : List PeerSocket
  peerIdToSockfd : UnorderedMap PeerID Nat

section

variable (connect : PeerSocket → Bool) (me : PeerID)

/-- `htons` keeps the low 16 bits of a port. -/
def peerSocket (entry : PeerID × Str) : PeerSocket :=
  ⟨entry.2, getPeerServerPort entry.1 % 2 ^ 16⟩

/-- One round of `ConnectToPeers`; the process exits when it cannot connect. -/
def connectToPeer (connections : PeerConnections) (entry : PeerID × Str) :
    Option PeerConnections :=
  if entry.1 = me then some connections
  else if connect (peerSocket entry) then
    some
      { opened := connections.opened ++ [peerSocket entry]
        peerIdToSockfd :=
          connections.peerIdToSockfd.insert entry.1 connections.opened.length }
  else none

/-- `ConnectToPeers`. -/
def connectToPeers (peerIdToIp : UnorderedMap PeerID Str) : Option PeerConnections :=
  peerIdToIp.entries.foldlM (connectToPeer connect me) ⟨[], .empty⟩

/-- The loop of `HandleRegisterResponse` on one line: a peer that is neither a neighbour nor this
peer itself is skipped. -/
def readPeerInfo (peerIdToIp : UnorderedMap PeerID Str) (peerInfo : Str) :
    Except Fault (UnorderedMap PeerID Str) := do
  let peerId ← stoi (peerInfo.takeWhile fun c => c ≠ ' ')
  if (peerIdToIp.find? peerId).isNone ∧ peerId ≠ me then return peerIdToIp
  return peerIdToIp.insert peerId (afterFirst ' ' peerInfo)

/-- What `HandleRegisterResponse` leaves behind; no connections if the process has exited. -/
structure RegisteredPeer where
  peerIdToIp : UnorderedMap PeerID Str
  connections : Option PeerConnections

/-- `HandleRegisterResponse`. -/
def handleRegisterResponse (peerIdToIp : UnorderedMap PeerID Str) (message : Str) :
    Except Fault RegisteredPeer := do
  let response := cString message
  let responseType := response.takeWhile fun c => c ≠ '\n'
  let actualMessage := afterFirst '\n' response
  if responseType = registerResponseAllPeers then
    let peerIdToIp ← (splitString actualMessage ['\n']).foldlM (readPeerInfo me) peerIdToIp
    return ⟨peerIdToIp, connectToPeers connect me peerIdToIp⟩
  return ⟨peerIdToIp, some ⟨[], .empty⟩⟩

end

/-- The addresses, if the response is one that `HandleRegisterResponse` connects on. -/
def readRegisterResponse (me : PeerID) (peerIdToIp : UnorderedMap PeerID Str) (message : Str) :
    Except Fault (Option (UnorderedMap PeerID Str)) := do
  let response := cString message
  let responseType := response.takeWhile fun c => c ≠ '\n'
  let actualMessage := afterFirst '\n' response
  if responseType = registerResponseAllPeers then
    let peerIdToIp ← (splitString actualMessage ['\n']).foldlM (readPeerInfo me) peerIdToIp
    return some peerIdToIp
  return none

/-- The two parts of `HandleRegisterResponse`. -/
theorem handleRegisterResponse_read (connect : PeerSocket → Bool) (me : PeerID)
    (peerIdToIp : UnorderedMap PeerID Str) (message : Str) :
    handleRegisterResponse connect me peerIdToIp message =
      (readRegisterResponse me peerIdToIp message).map fun read =>
        match read with
        | some peerIdToIp => ⟨peerIdToIp, connectToPeers connect me peerIdToIp⟩
        | none => ⟨peerIdToIp, some ⟨[], .empty⟩⟩ := by
  rw [handleRegisterResponse, readRegisterResponse]
  split
  · cases (splitString (afterFirst '\n' (cString message)) ['\n']).foldlM (readPeerInfo me)
      peerIdToIp with
    | error f => rfl
    | ok ips => rfl
  · rfl

/-- What `DealWithRequest` and `SendResponse` send for the registered peers. -/
def allPeersResponse (clientInfo : UnorderedMap PeerID SClientInfo) : Str :=
  responseText registerResponseAllPeers (clientInfo.entries.flatMap infoLine)

end P2PFileSharing
