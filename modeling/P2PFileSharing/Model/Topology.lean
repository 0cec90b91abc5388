import P2PFileSharing.Model.Lines
import P2PFileSharing.Model.RegisterServer

/-!
# `CPeerClient::LoadTopology`

The first line whose number before the colon is the peer's own says which peers it connects to.
The list behind the colon is split at blanks, and what is not a number is passed over. A number
that does not convert throws, and a peer without a neighbour fails an assertion, also where the
file cannot be opened.
-/

namespace P2PFileSharing

/-- The loop over the pieces of a peer list. -/
def addPeers : List Str → UnorderedMap PeerID Str → Except Fault (UnorderedMap PeerID Str)
  | [], peerIdToIp => .ok peerIdToIp
  | connectedPeer :: rest, peerIdToIp =>
      if isNumber connectedPeer then do
        let peer ← stoi connectedPeer
        addPeers rest (peerIdToIp.insert peer [])
      else addPeers rest peerIdToIp

/-- The loop over the lines, up to the peer's own. -/
def loadLines (me : PeerID) : List Str → Except Fault (UnorderedMap PeerID Str)
  | [] => .ok .empty
  | line :: rest => do
      let peerId ← stoi (line.takeWhile fun c => c ≠ ':')
      if peerId ≠ me then loadLines me rest
      else addPeers (splitString (afterFirst ':' line) [' ']) .empty

inductive ETopologyType
  | test | star | mesh2d
  deriving DecidableEq, Repr

def topologyFileName : ETopologyType → Str
  | .test => "top_test.config".toList
  | .star => "top_star.config".toList
  | .mesh2d => "top_mesh_2d.config".toList

/-- `LoadTopology`, with the files that can be opened: what it leaves in `m_peer_id_to_ip`. -/
def loadTopology (files : Str → Option Str) (topologyType : ETopologyType) (me : PeerID) :
    Except Fault (UnorderedMap PeerID Str) := do
  let peerIdToIp ←
    match files (topologyFileName topologyType) with
    | some text => loadLines me (getlines text)
    | none => .ok .empty
  if peerIdToIp.size > 0 then return peerIdToIp
  else throw .assertionFailed

end P2PFileSharing
