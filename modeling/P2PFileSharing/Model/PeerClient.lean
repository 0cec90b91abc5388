import P2PFileSharing.Model.Defines

/-!
# `CPeerClient`: one peer, one lock-protected section at a time

A peer runs five threads over shared maps: the command loop of `Run`, the
startup replication, the message handler, the broadcaster and the cache
cleaner. What another thread can observe between two of its steps is decided by
the locks, so a step here is one locked section together with the local
computation up to the next one, and what a function still has to do after a
section is the list of sections it goes on with.

`Section` lists these program points, each carrying the local variables that
are live there; the function of the source a section belongs to computes it,
under the source's name.
-/

namespace P2PFileSharing

/-! ## What is fixed once a peer runs -/

/-- A filename or an address the text format can carry. -/
def ValidName (s : Str) : Prop := s ≠ [] ∧ '\n' ∉ s

instance (s : Str) : Decidable (ValidName s) := inferInstanceAs (Decidable (_ ∧ _))

/-- The two `SMessageID` variables a caller may pass by address: the one `Run`
declares before its loop, or a local one. -/
inductive Var
  | run | scratch
  deriving DecidableEq, Repr

/-- The peers after `Register`: the loaded topology, the files and settings of
each peer, its own registered address, and whatever the uninitialised
`SMessageID` variables happened to hold. -/
structure Setup where
  peers : List PeerID
  topology : PeerID → List PeerID
  files : PeerID → List Str
  replicationFactor : PeerID → Int
  ip : PeerID → Str
  ensureQueryhitFile : PeerID → Str
  largeFileName : PeerID → Str
  uninitialised : PeerID → Var → SMessageID
  peers_nodup : peers.Nodup
  peers_range : ∀ p ∈ peers, 0 ≤ p ∧ IsInt p
  topology_nodup : ∀ p, (topology p).Nodup
  topology_peers : ∀ p, ∀ q ∈ topology p, q ∈ peers
  topology_symm : ∀ p, ∀ q ∈ topology p, p ∈ topology q
  files_valid : ∀ p, ∀ f ∈ files p, ValidName f
  factor_range : ∀ p, IsInt (replicationFactor p)
  ip_valid : ∀ p, ValidName (ip p)
  ensure_valid : ∀ p, ValidName (ensureQueryhitFile p)
  large_valid : ∀ p, ValidName (largeFileName p)

/-- The keys of `m_peer_id_to_sockfd`: `ConnectToPeers` skips the peer itself. -/
def Setup.peerIdToSockfd (net : Setup) (me : PeerID) : List PeerID :=
  (net.topology me).filter fun q => q ≠ me

/-- `HasFile`. -/
def Setup.hasFile (net : Setup) (me : PeerID) (filename : Str) : Bool :=
  (net.files me).contains filename

/-- A factor above 1 is one more than the copies to make. -/
theorem Setup.wrapInt_factor {net : Setup} {me : PeerID} (h : 1 < net.replicationFactor me) :
    wrapInt (net.replicationFactor me - 1) = net.replicationFactor me - 1 :=
  wrapInt_sub_one (net.factor_range me) (by omega)

/-! ## Records -/

structure SPeerServerInfo where
  ip : Str
  port : Int
  deriving DecidableEq, Repr

structure SQueryResult where
  serverInfo : SPeerServerInfo
  timestamp : Int
  deriving DecidableEq, Repr

inductive ERequestType
  | requestDownloadFile | requestPushFile
  deriving DecidableEq, Repr

/-- A request in `CPeerFileClient`'s queue. -/
structure SClientRequest where
  reqType : ERequestType
  filename : Str
  ip : Str
  port : Int
  deriving DecidableEq, Repr

/-- The four functions that handle a flooded message. -/
inductive Handler
  | query | invQuery | conTestQuery | conTestObtain
  deriving DecidableEq, Repr

/-- The test commands that flood a message of their own. -/
inductive TestCommand
  | concurrentTestQuery | testObtain2 | testObtain3
  deriving DecidableEq, Repr

/-- A user command, with a filename the text format can carry or with the `int`
the loop parsed. `help` and `clear` do nothing here. -/
inductive Command
  | query (filename : {f : Str // ValidName f})
  | obtain (filename : {f : Str // ValidName f})
  | invQuery (filename : {f : Str // ValidName f})
  | replicate (filename : {f : Str // ValidName f})
  | testQuery
  | testObtain
  | concurrent (test : TestCommand) (requirement : {n : Int // IsInt n})
  deriving DecidableEq

/-- The program points of the five threads. -/
inductive Section
  /-- `StartReplicateAllFiles`: the snapshot of unrecorded filenames. -/
  | startReplicateAllFiles
  /-- `SendQuery`: `CreateQueryMessage`; the caller waits for a hit or not. -/
  | sendQuery (out : Var) (filename : Str) (wait : Bool)
  /-- `SendInvQuery`, likewise. -/
  | sendInvQuery (out : Var) (filename : Str) (wait : Bool)
  /-- `CreateCommonQueryMsgVec` in one of its three callers. -/
  | createCommonQuery (test : TestCommand) (requirement : Int)
  /-- `CacheQuery(*message_id, -1)` of the sending functions. -/
  | cacheOwnQuery (id : SMessageID) (message : Str) (wait : Option Str)
  /-- `Broadcast(msg)` of the sending functions. -/
  | broadcastOwn (id : SMessageID) (message : Str) (wait : Option Str)
  | setWaitQueryHit (id : SMessageID) (filename : Str)
  /-- One round of `HandleMessageThread`, up to the cache lookup. -/
  | handle (message : Str)
  /-- `CacheQuery` in a handler that did not find the id. -/
  | cacheQuery (handler : Handler) (message : Str) (id : SMessageID) (upstream : PeerID)
  /-- What the handler does next: answer, record, start a test. -/
  | act (handler : Handler) (message : Str) (id : SMessageID) (upstream : PeerID)
  /-- The handlers' common end: decrease, rewrite, `RelayQuery`. -/
  | relayQuery (handler : Handler) (message : Str) (id : SMessageID) (upstream : PeerID)
  | relayQueryHit (message : Str) (id : SMessageID)
  /-- `HandleQueryHit` at the originator: `push_back` to the hit list. -/
  | recordQueryHit (type : Str) (id : SMessageID) (result : SQueryResult)
  /-- `HandleWaitQueryHit`: the lookup in `m_wait_queryhit`. -/
  | takeWaitQueryHit (type : Str) (id : SMessageID)
  /-- `HandleWaitQueryHit`: the walk over the hit list. -/
  | startTransfers (type : Str) (id : SMessageID) (filename : Str)
  /-- `BroadcastProcessThread`: taking `m_send_buffer_mutex`. -/
  | lockSendBuffer (message : Str) (exclude : PeerID)
  /-- One round of its loop over the connected peers. -/
  | sendTo (peer : PeerID) (message : Str)
  | unlockSendBuffer
  | removeOldQueries (now : Int)
  | removeOldQueryHits (now : Int)
  | removeOldWaits (now : Int)

/-- What a peer did, for the history of a run. No transition reads it. -/
inductive Event (M : Type)
  | command (cmd : Command)
  | issued (id : SMessageID) (message : M)
  | cached (id : SMessageID) (upstream : PeerID)
  | acted (handler : Handler) (id : SMessageID)
  | answered (id : SMessageID) (message : M)
  | relayed (id : SMessageID) (message : M)
  | sent (dst : PeerID) (message : M)
  | received (src : PeerID) (message : M)
  | waitSet (id : SMessageID) (filename : Str)
  | recorded (id : SMessageID) (result : SQueryResult)
  | waitLookedUp (id : SMessageID) (found : Bool)
  | transfersStarted (type : Str) (id : SMessageID) (requests : List SClientRequest)
  | removedQuery (id : SMessageID)
  | removedQueryHits (id : SMessageID)
  | removedWait (id : SMessageID)
  deriving DecidableEq

/-- The members of one `CPeerClient` that its threads change, except the queues
of messages, together with the variables `Run` passes by address and the
request queue of its file client. -/
structure Tables where
  msgIdCounter : MessageCounter
  queries : UnorderedMap SMessageID PeerID
  queryHitResult : UnorderedMap SMessageID (List SQueryResult)
  waitQueryhit : UnorderedMap SMessageID Str
  replicateQueryFilename : List Str
  requestQueue : List SClientRequest
  messageId : Var → SMessageID
  sendBufferMutex : Bool
  fault : Option Fault

/-- What a section does: the members it leaves behind, the sections the thread
goes on with, what it pushes to the broadcast queue and what it hands to
`send`. -/
structure Outcome where
  tables : Tables
  next : List Section := []
  queued : List (Str × PeerID) := []
  sent : List (PeerID × Str) := []
  events : List (Event Str) := []

/-- An exception that nothing catches ends the process. -/
def Tables.abort (t : Tables) (f : Fault) : Tables := { t with fault := some f }

/-! ## Sections that never look inside a message -/

section Shared

variable (net : Setup) (me : PeerID)

/-- `IsQueryCached`. -/
def Tables.isQueryCached (t : Tables) (id : SMessageID) : Bool := (t.queries.find? id).isSome

/-- `CacheQuery`. -/
def Tables.cacheQuery (t : Tables) (id : SMessageID) (upstream : PeerID) : Tables :=
  if t.isQueryCached id then t else { t with queries := t.queries.insert id upstream }

/-- The event of a `CacheQuery` that found no entry. -/
def Tables.cacheEvents {M : Type} (t : Tables) (id : SMessageID) (upstream : PeerID) :
    List (Event M) :=
  if t.isQueryCached id then [] else [.cached id upstream]

/-- `ObtainFile`: `SendQuery`, then `SetWaitQueryHit`. -/
def obtainFile (out : Var) (filename : Str) : List Section := [.sendQuery out filename true]

/-- `ReplicateFile`. -/
def replicateFile (out : Var) (filename : Str) : List Section :=
  if net.hasFile me filename then [.sendInvQuery out filename true] else []

/-- `StartReplicateAllFiles`. -/
def startReplicateAllFiles (t : Tables) : Outcome :=
  if net.replicationFactor me ≤ 1 then { tables := t }
  else
    let replicateFilenames :=
      (net.files me).filter fun f => !t.replicateQueryFilename.contains f
    { tables := t, next := replicateFilenames.flatMap (replicateFile net me .scratch) }

/-- `SendTestQuery`. -/
def sendTestQuery : List Section :=
  (List.range testQueryCount).map (fun i => .sendQuery .scratch (natToString i) false) ++
    [.sendQuery .scratch (net.ensureQueryhitFile me) false]

/-- `SendTestObtain`. -/
def sendTestObtain : List Section :=
  (List.replicate testObtainCount (obtainFile .scratch (net.ensureQueryhitFile me))).flatten

/-- `SendTestObtainLarge`. -/
def sendTestObtainLarge : List Section :=
  (List.replicate testObtainLargeCount (obtainFile .scratch (net.largeFileName me))).flatten

/-- What `Run` does with a command. -/
def runCommand : Command → List Section
  | .query f => [.sendQuery .run f.1 false]
  | .obtain f => obtainFile .run f.1
  | .invQuery f => [.sendInvQuery .run f.1 false]
  | .replicate f => replicateFile net me .run f.1
  | .testQuery => sendTestQuery net me
  | .testObtain => sendTestObtain net me
  | .concurrent test n => [.createCommonQuery test n.1]

/-- What the initiator of a concurrent test does after flooding it. -/
def TestCommand.ownTest : TestCommand → List Section
  | .concurrentTestQuery => sendTestQuery net me
  | .testObtain2 => sendTestObtain net me
  | .testObtain3 => sendTestObtainLarge net me

/-- `SetWaitQueryHit`. -/
def setWaitQueryHit (t : Tables) (id : SMessageID) (filename : Str) : Outcome where
  tables := { t with waitQueryhit := t.waitQueryhit.insert id filename }
  events := [.waitSet id filename]

/-- `CacheQuery(*message_id, -1)` of the sending functions. -/
def cacheOwnQuery (t : Tables) (id : SMessageID) (message : Str) (wait : Option Str) :
    Outcome where
  tables := t.cacheQuery id (-1)
  next := [.broadcastOwn id message wait]
  events := t.cacheEvents id (-1)

/-- `Broadcast(msg)` with the default excluded peer -1, and the caller's
`SetWaitQueryHit` after it. -/
def broadcastOwn (t : Tables) (id : SMessageID) (message : Str) (wait : Option Str) :
    Outcome where
  tables := t
  next := wait.toList.map (.setWaitQueryHit id)
  queued := [(message, -1)]

/-- `CacheQuery(message_id, upstream_peer_id)` of the handlers. -/
def cacheUpstream (t : Tables) (handler : Handler) (message : Str) (id : SMessageID)
    (upstream : PeerID) : Outcome where
  tables := t.cacheQuery id upstream
  next := [.act handler message id upstream]
  events := t.cacheEvents id upstream

/-- `RelayQueryHit`. Reading `m_queries[message_id]` inserts peer 0 when the id
is not there; the assertion is on, since nothing defines `NDEBUG`. -/
def relayQueryHit (t : Tables) (message : Str) (id : SMessageID) : Option Outcome :=
  if t.sendBufferMutex then none
  else
    let (upstream, queries) := t.queries.index id 0
    let t := { t with queries := queries }
    if upstream ∈ net.peerIdToSockfd me then
      some { tables := t, sent := [(upstream, message)] }
    else some { tables := t.abort .assertionFailed }

/-- `HandleQueryHit` at the originator: the hit list, under its lock. -/
def recordQueryHit (t : Tables) (type : Str) (id : SMessageID) (result : SQueryResult) :
    Outcome where
  tables :=
    { t with
      queryHitResult :=
        t.queryHitResult.insert id ((t.queryHitResult.find? id).getD [] ++ [result]) }
  next := [.takeWaitQueryHit type id]
  events := [.recorded id result]

/-- `HandleWaitQueryHit`: find and erase the wait entry. -/
def takeWaitQueryHit (t : Tables) (type : Str) (id : SMessageID) : Outcome :=
  match t.waitQueryhit.find? id with
  | none => { tables := t, events := [.waitLookedUp id false] }
  | some filename =>
      { tables := { t with waitQueryhit := t.waitQueryhit.erase id }
        next := [.startTransfers type id filename]
        events := [.waitLookedUp id true] }

/-- `StartFileTransfer`: one download request. -/
def startFileTransfer (filename : Str) (info : SPeerServerInfo) : List SClientRequest :=
  [⟨.requestDownloadFile, filename, info.ip, info.port⟩]

/-- `StartPushFile`: one push request, if the file is there. -/
def startPushFile (filename : Str) (info : SPeerServerInfo) : List SClientRequest :=
  if net.hasFile me filename then [⟨.requestPushFile, filename, info.ip, info.port⟩] else []

/-- `HandleWaitQueryHit` over a hit list: the first server for a query hit, at
most the factor less one for an inv_query hit. -/
def transferRequests (type filename : Str) (results : List SQueryResult) :
    List SClientRequest :=
  if type = peerMsgQueryHit then
    (results.take 1).flatMap fun r => startFileTransfer filename r.serverInfo
  else if type = peerMsgInvQueryHit then
    (results.take (wrapInt (net.replicationFactor me - 1)).toNat).flatMap fun r =>
      startPushFile net me filename r.serverInfo
  else []

/-- `HandleWaitQueryHit`: the hit list, under its lock. -/
def startTransfers (t : Tables) (type : Str) (id : SMessageID) (filename : Str) :
    Outcome :=
  match t.queryHitResult.find? id with
  | none => { tables := t }
  | some results =>
      let requests := transferRequests net me type filename results
      { tables := { t with requestQueue := t.requestQueue ++ requests }
        events := [.transfersStarted type id requests] }

/-- `BroadcastProcessThread` takes the send buffer and starts its loop. -/
def lockSendBuffer (t : Tables) (message : Str) (exclude : PeerID) : Option Outcome :=
  if t.sendBufferMutex then none
  else
    some
      { tables := { t with sendBufferMutex := true }
        next := (((net.peerIdToSockfd me).filter fun q => q ≠ exclude).map fun q =>
          .sendTo q message) ++ [.unlockSendBuffer] }

/-- Whether a key is past a time-out of so many seconds. -/
def timedOut (now timeOut : Int) (id : SMessageID) : Bool :=
  decide (wrapInt64 (now - id.timestamp) > timeOut * 1000)

/-- `MantainQueryMapSize`: the old queries. -/
def removeOldQueries (t : Tables) (now : Int) : Outcome where
  tables :=
    { t with queries := t.queries.filterKeys fun id => !timedOut now queryCacheTimeOut id }
  events := (t.queries.keys.filter (timedOut now queryCacheTimeOut)).map .removedQuery

/-- `MantainQueryMapSize`: the old hit lists. -/
def removeOldQueryHits (t : Tables) (now : Int) : Outcome where
  tables :=
    { t with
      queryHitResult :=
        t.queryHitResult.filterKeys fun id => !timedOut now queryHitResultsTimeOut id }
  events :=
    (t.queryHitResult.keys.filter (timedOut now queryHitResultsTimeOut)).map .removedQueryHits

/-- `MantainQueryMapSize`: the old wait entries. -/
def removeOldWaits (t : Tables) (now : Int) : Outcome where
  tables :=
    { t with
      waitQueryhit :=
        t.waitQueryhit.filterKeys fun id => !timedOut now queryHitResultsTimeOut id }
  events :=
    (t.waitQueryhit.keys.filter (timedOut now queryHitResultsTimeOut)).map .removedWait

/-- `MantainQueryMapSize` after its sleep: nothing below the size limit. -/
def mantainQueryMapSize (t : Tables) (now : Int) : List Section :=
  if (t.queries.size : Int) < queryCacheTimeOut * 1000 then []
  else [.removeOldQueries now, .removeOldQueryHits now, .removeOldWaits now]

/-- The id the next created message gets. -/
def Tables.nextId (t : Tables) (now : Int) : SMessageID := ⟨me, t.msgIdCounter, now⟩

/-- The creators' effect on the members: the counter moves on and the caller's
variable holds the new id. -/
def Tables.afterCreate (t : Tables) (out : Var) (now : Int) : Tables :=
  { t with
    msgIdCounter := t.msgIdCounter + 1
    messageId := Function.update t.messageId out (t.nextId me now) }

/-- Creating a message, and what the sender goes on with. The counter is an
`unsigned long long`: the model ends a run where it would wrap around. -/
def createMessage (t : Tables) (out : Var) (now : Int) (message : Str) (wait : Option Str)
    (rest : List Section) : Option Outcome :=
  if t.msgIdCounter + 1 < counterLimit then
    some
      { tables := t.afterCreate me out now
        next := .cacheOwnQuery (t.nextId me now) message wait :: rest
        events := [.issued (t.nextId me now) message] }
  else none

end Shared

/-! ## Message texts -/

/-- The first six fields every creator writes: type, id, `TTL`, sender. -/
def commonFields (type : Str) (id : SMessageID) (sender : PeerID) : List Str :=
  [type, intToString id.peerId, natToString id.msgId, intToString id.timestamp,
    intToString ttl, intToString sender]

/-- The text of a message from its fields. -/
def joinFields (vec : List Str) : Str := joinString vec [peerMsgTypeDelim]

/-- The fields of a message text. -/
def splitFields (message : Str) : List Str := splitString message [peerMsgTypeDelim]

/-- `CreateQueryMessage`. -/
def createQueryMessage (me : PeerID) (id : SMessageID) (filename : Str) : Str :=
  joinFields (commonFields peerMsgQuery id me ++ [filename])

/-- `CreateInvQueryMessage`. -/
def createInvQueryMessage (net : Setup) (me : PeerID) (id : SMessageID) (filename : Str) : Str :=
  joinFields (commonFields peerMsgInvQuery id me ++
    [filename, intToString (wrapInt (net.replicationFactor me - 1))])

/-- The messages of `SendConcurrentTestQuery`, `SendTestObtain2` and
`SendTestObtain3`. -/
def createTestMessage (me : PeerID) (id : SMessageID) (test : TestCommand)
    (requirement : Int) : Str :=
  match test with
  | .concurrentTestQuery =>
      joinFields (commonFields peerMsgConTestQuery id me ++ [intToString requirement])
  | .testObtain2 =>
      joinFields (commonFields peerMsgTestObtain2 id me ++
        [intToString requirement, natToString 2])
  | .testObtain3 =>
      joinFields (commonFields peerMsgTestObtain2 id me ++
        [intToString requirement, natToString 3])

/-- `CreateQueryHitMessage`. -/
def createQueryHitMessage (net : Setup) (me : PeerID) (filename : Str) (id : SMessageID) : Str :=
  joinFields (commonFields peerMsgQueryHit id me ++ [net.ip me, filename])

/-- `CreateInvQueryHitMessage`: the filename is not part of the text. -/
def createInvQueryHitMessage (net : Setup) (me : PeerID) (id : SMessageID) : Str :=
  joinFields (commonFields peerMsgInvQueryHit id me ++ [net.ip me])

/-- The id every handler reads from fields 1 to 3. -/
def parseMessageId (vec : List Str) : Except Fault SMessageID := do
  let peerId ← stoi (← field vec 1)
  let msgId ← stoull (← field vec 2)
  let timestamp ← stoll (← field vec 3)
  return ⟨peerId, msgId, timestamp⟩

/-! ## Handlers -/

section Handlers

variable (net : Setup) (me : PeerID)

/-- The opening the four handlers share: parse the id, drop a cached one, read
the upstream peer from field 5. -/
def receiveQuery (handler : Handler) (t : Tables) (message : Str) :
    Except Fault Outcome := do
  let vec := splitFields message
  let id ← parseMessageId vec
  if t.isQueryCached id then
    return { tables := t }
  let upstream ← stoi (← field vec 5)
  return { tables := t, next := [.cacheQuery handler message id upstream] }

/-- `HandleQuery`. -/
def handleQuery : Tables → Str → Except Fault Outcome := receiveQuery .query

/-- `HandleInvQuery`. -/
def handleInvQuery : Tables → Str → Except Fault Outcome := receiveQuery .invQuery

/-- `HandleConcurrentTestQuery`. -/
def handleConcurrentTestQuery : Tables → Str → Except Fault Outcome :=
  receiveQuery .conTestQuery

/-- `HandleConcurrentTestObtain`. -/
def handleConcurrentTestObtain : Tables → Str → Except Fault Outcome :=
  receiveQuery .conTestObtain

/-- `HandleQuery` after `CacheQuery`: answer, or pass the query on. -/
def actOnQuery (t : Tables) (message : Str) (id : SMessageID) (upstream : PeerID) :
    Except Fault Outcome := do
  let filename ← field (splitFields message) 6
  if net.hasFile me filename then
    let hit := createQueryHitMessage net me filename id
    return { tables := t, next := [.relayQueryHit hit id],
             events := [.acted .query id, .answered id hit] }
  return { tables := t, next := [.relayQuery .query message id upstream],
           events := [.acted .query id] }

/-- `HandleInvQuery` after `CacheQuery`: a filename is dealt with once; a peer
without the file answers; the query goes on either way. -/
def actOnInvQuery (t : Tables) (message : Str) (id : SMessageID) (upstream : PeerID) :
    Except Fault Outcome := do
  let vec := splitFields message
  let _replicateFactor ← stoi (← field vec 7)
  let filename ← field vec 6
  if t.replicateQueryFilename.contains filename then
    return { tables := t, events := [.acted .invQuery id] }
  let t := { t with replicateQueryFilename := filename :: t.replicateQueryFilename }
  if net.hasFile me filename then
    return { tables := t, next := [.relayQuery .invQuery message id upstream],
             events := [.acted .invQuery id] }
  let hit := createInvQueryHitMessage net me id
  return { tables := t,
           next := [.relayQueryHit hit id, .relayQuery .invQuery message id upstream],
           events := [.acted .invQuery id, .answered id hit] }

/-- `HandleConcurrentTestQuery` after `CacheQuery`. -/
def actOnConcurrentTestQuery (t : Tables) (message : Str) (id : SMessageID)
    (upstream : PeerID) : Except Fault Outcome := do
  let requirement ← stoi (← field (splitFields message) 6)
  return { tables := t,
           next := (if me < requirement then sendTestQuery net me else []) ++
             [.relayQuery .conTestQuery message id upstream],
           events := [.acted .conTestQuery id] }

/-- `HandleConcurrentTestObtain` after `CacheQuery`: field 7 is only read by a
peer that takes part. -/
def actOnConcurrentTestObtain (t : Tables) (message : Str) (id : SMessageID)
    (upstream : PeerID) : Except Fault Outcome := do
  let vec := splitFields message
  let requirement ← stoi (← field vec 6)
  let own ←
    if me < requirement then do
      let variant ← field vec 7
      pure (if variant = natToString 2 then sendTestObtain net me
        else sendTestObtainLarge net me)
    else pure []
  return { tables := t,
           next := own ++ [.relayQuery .conTestObtain message id upstream],
           events := [.acted .conTestObtain id] }

/-- The handler's own part, after the cache. -/
def actOn (handler : Handler) : Tables → Str → SMessageID → PeerID →
    Except Fault Outcome :=
  match handler with
  | .query => actOnQuery net me
  | .invQuery => actOnInvQuery net me
  | .conTestQuery => actOnConcurrentTestQuery net me
  | .conTestObtain => actOnConcurrentTestObtain net me

/-- The end the handlers share: decrease the TTL (and, for an inv_query, first
the replicate factor), put oneself as sender, and `RelayQuery`. Both are `int`s. -/
def relayQuery (handler : Handler) (t : Tables) (message : Str) (id : SMessageID)
    (upstream : PeerID) : Except Fault Outcome := do
  let vec := splitFields message
  let vec ←
    if handler = .invQuery then do
      let replicateFactor := wrapInt ((← stoi (← field vec 7)) - 1)
      if replicateFactor ≤ 0 then pure none
      else pure (some (vec.set 7 (intToString replicateFactor)))
    else pure (some vec)
  match vec with
  | none => return { tables := t }
  | some vec =>
      let timeToLive := wrapInt ((← stoi (← field vec 4)) - 1)
      if timeToLive ≤ 0 then
        return { tables := t }
      let vec := (vec.set 4 (intToString timeToLive)).set 5 (intToString me)
      return { tables := t, queued := [(joinFields vec, upstream)],
               events := [.relayed id (joinFields vec)] }

/-- `HandleQueryHit`. A number that does not parse in the id is caught; later
ones are not. The TTL is tested but never written back to the message. -/
def handleQueryHit (now : Int) (t : Tables) (message : Str) : Except Fault Outcome := do
  let vec := splitFields message
  match parseMessageId vec with
  | .error .missingField => .error .missingField
  | .error _ => return { tables := t }
  | .ok id =>
      let type ← field vec 0
      if id.peerId = me then
        if !t.isQueryCached id then
          return { tables := t }
        let originator ← stoi (← field vec 5)
        let ip ← field vec 6
        return { tables := t,
                 next := [.recordQueryHit type id
                   ⟨⟨ip, getFileServerPort originator⟩, now⟩] }
      let timeToLive := wrapInt ((← stoi (← field vec 4)) - 1)
      if timeToLive ≤ 0 then
        return { tables := t }
      return { tables := t, next := [.relayQueryHit (joinFields vec) id] }

/-- `HandleInvQueryHit`. -/
def handleInvQueryHit (now : Int) (t : Tables) (message : Str) : Except Fault Outcome :=
  handleQueryHit me now t message

/-- The dispatch of `HandleMessageThread`. -/
def handleMessage (now : Int) (t : Tables) (message : Str) : Except Fault Outcome :=
  let command := message.takeWhile fun c => c ≠ peerMsgTypeDelim
  if command = peerMsgQuery then handleQuery t message
  else if command = peerMsgInvQuery then handleInvQuery t message
  else if command = peerMsgQueryHit then handleQueryHit me now t message
  else if command = peerMsgInvQueryHit then handleInvQueryHit me now t message
  else if command = peerMsgConTestQuery then handleConcurrentTestQuery t message
  else if command = peerMsgTestObtain2 then handleConcurrentTestObtain t message
  else .ok { tables := t }

/-- An exception that escapes a handler stops the process. -/
def orAbort (t : Tables) : Except Fault Outcome → Outcome
  | .ok o => o
  | .error f => { tables := t.abort f }

/-- `SendInvQuery`: with a factor of at most 1 it returns before it creates a
message, and the caller's variable keeps what it held. -/
def sendInvQuery (t : Tables) (out : Var) (filename : Str) (wait : Bool) (now : Int) :
    Option Outcome :=
  if net.replicationFactor me ≤ 1 then
    some
      { tables := t
        next := if wait then [.setWaitQueryHit (t.messageId out) filename] else [] }
  else
    createMessage me t out now (createInvQueryMessage net me (t.nextId me now) filename)
      (if wait then some filename else none) []

/-- One section of a peer's thread at time `now`; `none` while it is blocked. -/
def exec (now : Int) (t : Tables) : Section → Option Outcome
  | .startReplicateAllFiles => some (startReplicateAllFiles net me t)
  | .sendQuery out filename wait =>
      createMessage me t out now (createQueryMessage me (t.nextId me now) filename)
        (if wait then some filename else none) []
  | .sendInvQuery out filename wait => sendInvQuery net me t out filename wait now
  | .createCommonQuery test n =>
      createMessage me t .scratch now (createTestMessage me (t.nextId me now) test n) none
        (test.ownTest net me)
  | .cacheOwnQuery id message wait => some (cacheOwnQuery t id message wait)
  | .broadcastOwn id message wait => some (broadcastOwn t id message wait)
  | .setWaitQueryHit id filename => some (setWaitQueryHit t id filename)
  | .handle message => some (orAbort t (handleMessage me now t message))
  | .cacheQuery handler message id upstream =>
      some (cacheUpstream t handler message id upstream)
  | .act handler message id upstream =>
      some (orAbort t (actOn net me handler t message id upstream))
  | .relayQuery handler message id upstream =>
      some (orAbort t (relayQuery me handler t message id upstream))
  | .relayQueryHit message id => relayQueryHit net me t message id
  | .recordQueryHit type id result => some (recordQueryHit t type id result)
  | .takeWaitQueryHit type id => some (takeWaitQueryHit t type id)
  | .startTransfers type id filename => some (startTransfers net me t type id filename)
  | .lockSendBuffer message exclude => lockSendBuffer net me t message exclude
  | .sendTo peer message => some { tables := t, sent := [(peer, message)] }
  | .unlockSendBuffer => some { tables := { t with sendBufferMutex := false } }
  | .removeOldQueries since => some (removeOldQueries t since)
  | .removeOldQueryHits since => some (removeOldQueryHits t since)
  | .removeOldWaits since => some (removeOldWaits t since)

end Handlers

end P2PFileSharing
