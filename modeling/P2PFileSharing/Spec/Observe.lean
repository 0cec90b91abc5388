import P2PFileSharing.Model.Network

/-!
# What can be seen of a state

Where something can wait in the network, and what the texts there are copies of.
The guarantees are stated in these words: a copy of a query and a hit are
recognised by the fields of their text, wherever they are.
-/

namespace P2PFileSharing

inductive Place
  | thread (p : PeerID) (th : Thread)
  | broadcastQueue (p : PeerID)
  | messagesQueue (p : PeerID)
  | socket (p q : PeerID)
  deriving DecidableEq

/-- The places of a network of peers. -/
def Setup.places (net : Setup) : List Place :=
  net.peers.flatMap fun p =>
    [.thread p .command, .thread p .replicate, .thread p .message, .thread p .broadcast,
      .thread p .mantain, .broadcastQueue p, .messagesQueue p] ++ net.peers.map (.socket p)

/-- What waits at a place of the network, as program points: a message in a queue
or on a stream is one that its receiver will handle or broadcast. -/
def Network.sectionsAt (s : Network) : Place → List Section
  | .thread p th => (s.peers p).threads th
  | .broadcastQueue p => (s.peers p).broadcastQueue.map fun x => .lockSendBuffer x.1 x.2
  | .messagesQueue p => (s.peers p).messagesQueue.map .handle
  | .socket p q => (s.sockets p q).map .handle

/-- Everything that waits anywhere. -/
def Network.sections (net : Setup) (s : Network) : List Section :=
  net.places.flatMap s.sectionsAt

/-- What a peer's file server is known as. -/
def Setup.serverInfo (net : Setup) (q : PeerID) : SPeerServerInfo :=
  ⟨net.ip q, getFileServerPort q⟩

/-- The hit list of an id. -/
def Network.hitResults (s : Network) (p : PeerID) (id : SMessageID) : List SQueryResult :=
  ((s.peers p).tables.queryHitResult.find? id).getD []

/-- A peer answered. -/
def Network.HasAnswered (s : Network) (q : PeerID) (id : SMessageID) : Prop :=
  ∃ message, (q, .answered id message) ∈ s.log

/-- The upstream peer in `m_queries`. -/
def Network.upstream (s : Network) (p : PeerID) (id : SMessageID) : Option PeerID :=
  (s.peers p).tables.queries.find? id

/-! ## What was issued, recorded and requested -/

/-- The ids issued so far, in the order of the history. -/
def issuedIds {M : Type} (log : List (PeerID × Event M)) : List SMessageID :=
  log.filterMap fun e =>
    match e.2 with
    | .issued id _ => some id
    | _ => none

/-- The entries recorded under an id so far, in the order of the history. -/
def resultsIn {M : Type} (log : List (PeerID × Event M)) (p : PeerID) (id : SMessageID) :
    List SQueryResult :=
  log.filterMap fun e =>
    match e.2 with
    | .recorded id' r => if e.1 = p ∧ (id' == id) = true then some r else none
    | _ => none

/-- The requests that hits for an id brought to a peer's file client so far. -/
def requestsIn {M : Type} (log : List (PeerID × Event M)) (p : PeerID) (id : SMessageID) :
    List SClientRequest :=
  log.flatMap fun e =>
    match e.2 with
    | .transfersStarted _ id' requests =>
        if e.1 = p ∧ (id' == id) = true then requests else []
    | _ => []

/-- Every `replicate` of a file the peer has goes on to issue an inv_query. With a
factor of at most 1 `SendInvQuery` returns early, and `ReplicateFile` then waits
for whatever id its caller's variable holds. -/
def ReplicatesIssue {M : Type} (net : Setup) (log : List (PeerID × Event M)) (p : PeerID) :
    Prop :=
  ∀ f, (p, .command (.replicate f)) ∈ log → net.hasFile p f.1 = true →
    1 < net.replicationFactor p

/-- The requests that hits brought to a peer's file client so far, for any id. -/
def requestsOf {M : Type} (log : List (PeerID × Event M)) (p : PeerID) : List SClientRequest :=
  log.flatMap fun e =>
    match e.2 with
    | .transfersStarted _ _ requests => if e.1 = p then requests else []
    | _ => []

/-- `MantainQueryMapSize` removed neither the hit list nor the wait entry of an id. -/
def Network.EntriesKept (s : Network) (p : PeerID) (id : SMessageID) : Prop :=
  ∀ id', (id' == id) = true →
    (p, .removedQueryHits id') ∉ s.log ∧ (p, .removedWait id') ∉ s.log

/-! ## What was accepted and evicted -/

/-- The upstream peer of the first `CacheQuery` with which a peer put an id into
`m_queries`. -/
def firstUpstream {M : Type} (log : List (PeerID × Event M)) (p : PeerID) (id : SMessageID) :
    Option PeerID :=
  log.findSome? fun e =>
    match e.2 with
    | .cached id' u => if e.1 = p ∧ (id' == id) = true then some u else none
    | _ => none

/-- `MantainQueryMapSize` has removed the id from a peer's `m_queries`. -/
def Evicted {M : Type} (log : List (PeerID × Event M)) (p : PeerID) (id : SMessageID) : Prop :=
  ∃ id', (id' == id) = true ∧ (p, .removedQuery id') ∈ log

/-! ## Recognising messages -/

def queryTypes : List Str :=
  [peerMsgQuery, peerMsgInvQuery, peerMsgConTestQuery, peerMsgTestObtain2]

def hitTypes : List Str := [peerMsgQueryHit, peerMsgInvQueryHit]

/-- The message is of one of these types and its id compares equal. -/
def carries (types : List Str) (id : SMessageID) (message : Str) : Bool :=
  match (splitFields message)[0]?, parseMessageId (splitFields message) with
  | some type, .ok id' => types.contains type && (id' == id)
  | _, _ => false

/-- The message is a copy of the query with this id. -/
def isQueryOf (id : SMessageID) (message : Str) : Bool := carries queryTypes id message

/-- The message is a hit for this id that peer `q` answered with. -/
def isHitOf (id : SMessageID) (q : PeerID) (message : Str) : Bool :=
  carries hitTypes id message && decide ((splitFields message)[5]? = some (intToString q))

/-! ## Recognising events -/

def Event.isActed {M : Type} (id : SMessageID) : Event M → Bool
  | .acted _ id' => id' == id
  | _ => false

def Event.isAnswered {M : Type} (id : SMessageID) : Event M → Bool
  | .answered id' _ => id' == id
  | _ => false

def Event.isRelayed {M : Type} (id : SMessageID) : Event M → Bool
  | .relayed id' _ => id' == id
  | _ => false

def Event.isSentTo {M : Type} (q : PeerID) (c : M → Bool) : Event M → Bool
  | .sent q' m => decide (q' = q) && c m
  | _ => false

def Event.isSent {M : Type} (c : M → Bool) : Event M → Bool
  | .sent _ m => c m
  | _ => false

def Event.isReceivedFrom {M : Type} (p : PeerID) (c : M → Bool) : Event M → Bool
  | .received p' m => decide (p' = p) && c m
  | _ => false

def Event.isWaitSet {M : Type} (id : SMessageID) : Event M → Bool
  | .waitSet id' _ => id' == id
  | _ => false

def Event.isRecordedFor {M : Type} (id : SMessageID) : Event M → Bool
  | .recorded id' _ => id' == id
  | _ => false

def Event.isLookedUp {M : Type} (id : SMessageID) : Event M → Bool
  | .waitLookedUp id' _ => id' == id
  | _ => false

def Event.isFound {M : Type} (id : SMessageID) : Event M → Bool
  | .waitLookedUp id' found => found && (id' == id)
  | _ => false

def Event.isTransfersStarted {M : Type} (id : SMessageID) : Event M → Bool
  | .transfersStarted _ id' _ => id' == id
  | _ => false

/-- An event of one peer. -/
def ofPeer {M : Type} (p : PeerID) (P : Event M → Bool) (r : PeerID) (ev : Event M) : Bool :=
  decide (r = p) && P ev

/-- The lookups of an id's wait entry before it was first set. -/
def earlyLookups {M : Type} (log : List (PeerID × Event M)) (p : PeerID) (id : SMessageID) :
    Nat :=
  (log.takeWhile fun e => !ofPeer p (Event.isWaitSet id) e.1 e.2).countP fun e =>
    ofPeer p (Event.isLookedUp id) e.1 e.2

/-- The lookups after that. -/
def lateLookups {M : Type} (log : List (PeerID × Event M)) (p : PeerID) (id : SMessageID) :
    Nat :=
  (log.dropWhile fun e => !ofPeer p (Event.isWaitSet id) e.1 e.2).countP fun e =>
    ofPeer p (Event.isLookedUp id) e.1 e.2

/-! ## Recognising program points -/

/-- The text a program point carries. -/
def Section.message? : Section → Option Str
  | .cacheOwnQuery _ m _ | .broadcastOwn _ m _ | .handle m | .cacheQuery _ m _ _
  | .act _ m _ _ | .relayQuery _ m _ _ | .relayQueryHit m _ | .lockSendBuffer m _
  | .sendTo _ m => some m
  | _ => none

/-- The text a program point carries from a creator's `Broadcast` on. Until
`CacheQuery` returned, a new text is its creator's own. -/
def Section.travelling? : Section → Option Str
  | .cacheOwnQuery _ _ _ => none
  | sec => sec.message?

/-- The variable to which a program point that creates a message hands back the id. -/
def Section.createsInto? : Section → Option Var
  | .sendQuery out _ _ | .sendInvQuery out _ _ => some out
  | .createCommonQuery _ _ => some .scratch
  | _ => none

def Section.isQueryOf (id : SMessageID) (sec : Section) : Bool :=
  sec.message?.any (P2PFileSharing.isQueryOf id)

/-- A hit for the id that `q` answered with, in transit or being handled, up to its
entry into the hit list. -/
def Section.isHitOf (net : Setup) (id : SMessageID) (q : PeerID) : Section → Bool
  | .handle m | .relayQueryHit m _ => P2PFileSharing.isHitOf id q m
  | .recordQueryHit _ id' r => (id' == id) && decide (r.serverInfo = net.serverInfo q)
  | _ => false

/-- The program points of `HandleWaitQueryHit` for an id. -/
def Section.isHandleWaitQueryHit (id : SMessageID) : Section → Bool
  | .takeWaitQueryHit _ id' | .startTransfers _ id' _ => id' == id
  | _ => false

/-- Every hit recorded for an id has been dealt with. -/
def Network.HitsHandled (s : Network) (p : PeerID) (id : SMessageID) : Prop :=
  ∀ sec ∈ (s.peers p).threads .message, sec.isHandleWaitQueryHit id = false

instance (s : Network) (p : PeerID) (id : SMessageID) : Decidable (s.HitsHandled p id) :=
  inferInstanceAs (Decidable (∀ sec ∈ (s.peers p).threads .message, _ = false))

end P2PFileSharing
