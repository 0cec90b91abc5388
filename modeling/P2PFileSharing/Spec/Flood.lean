import P2PFileSharing.Spec.Message
import P2PFileSharing.Spec.Observe

/-!
# The flood as a bag of tasks

What the network is for, with everything that only orders work taken away. A
state is what each peer remembers, together with the bag of tasks that somebody
still has to do: a thread's remaining program points, the messages in its
queues, the messages on the streams. A step takes any task out of the bag, does
it, and puts the tasks it leads to into the bag. Messages are values.

Two things about order are kept, because the argument needs them: a task knows
the place it waits at, and the message thread and the broadcast thread only pop
their queues when they have nothing left to do.

`Task.code` says which program point of the code a task is.
-/

namespace P2PFileSharing

/-- The peer that will do what waits at a place. -/
def Place.owner : Place → PeerID
  | .thread p _ => p
  | .broadcastQueue p => p
  | .messagesQueue p => p
  | .socket _ q => q

inductive Task
  | startReplicateAllFiles
  | sendQuery (out : Var) (filename : Str) (wait : Bool)
  | sendInvQuery (out : Var) (filename : Str) (wait : Bool)
  | createTest (test : TestCommand) (requirement : Int)
  | cacheOwn (x : Query) (wait : Option Str)
  | broadcastOwn (x : Query) (wait : Option Str)
  | setWait (id : SMessageID) (filename : Str)
  | handleQuery (x : Query)
  | handleHit (h : Hit)
  | cacheQuery (x : Query)
  | act (x : Query)
  | relay (x : Query)
  | relayHit (h : Hit)
  | record (h : Hit) (now : Int)
  | takeWait (h : Hit)
  | startTransfers (h : Hit) (filename : Str)
  | lockSendBuffer (x : Query) (exclude : PeerID)
  | sendTo (peer : PeerID) (x : Query)
  | unlockSendBuffer
  | removeOldQueries (since : Int)
  | removeOldQueryHits (since : Int)
  | removeOldWaits (since : Int)

/-- The server a hit names. -/
def Hit.serverInfo (h : Hit) : SPeerServerInfo := ⟨h.ip, getFileServerPort h.origin⟩

/-- The program point a task is. -/
def Task.code : Task → Section
  | .startReplicateAllFiles => .startReplicateAllFiles
  | .sendQuery out filename wait => .sendQuery out filename wait
  | .sendInvQuery out filename wait => .sendInvQuery out filename wait
  | .createTest test requirement => .createCommonQuery test requirement
  | .cacheOwn x wait => .cacheOwnQuery x.id x.text wait
  | .broadcastOwn x wait => .broadcastOwn x.id x.text wait
  | .setWait id filename => .setWaitQueryHit id filename
  | .handleQuery x => .handle x.text
  | .handleHit h => .handle h.text
  | .cacheQuery x => .cacheQuery x.request.handler x.text x.id x.sender
  | .act x => .act x.request.handler x.text x.id x.sender
  | .relay x => .relayQuery x.request.handler x.text x.id x.sender
  | .relayHit h => .relayQueryHit h.text h.id
  | .record h now => .recordQueryHit h.kind.type h.id ⟨h.serverInfo, now⟩
  | .takeWait h => .takeWaitQueryHit h.kind.type h.id
  | .startTransfers h filename => .startTransfers h.kind.type h.id filename
  | .lockSendBuffer x exclude => .lockSendBuffer x.text exclude
  | .sendTo peer x => .sendTo peer x.text
  | .unlockSendBuffer => .unlockSendBuffer
  | .removeOldQueries since => .removeOldQueries since
  | .removeOldQueryHits since => .removeOldQueryHits since
  | .removeOldWaits since => .removeOldWaits since

/-- Handling a message that arrived. -/
def Message.task : Message → Task
  | .query x => .handleQuery x
  | .hit h => .handleHit h

structure Work where
  place : Place
  task : Task

structure Flood where
  tables : PeerID → Tables
  work : Multiset Work
  log : List (PeerID × Event Message)

/-- What a task leads to. -/
structure Effect where
  tables : Tables
  next : List Task := []
  queued : List (Query × PeerID) := []
  sent : List (PeerID × Message) := []
  events : List (Event Message) := []

/-! ## Doing a task -/

section Perform

variable (net : Setup) (me : PeerID)

def replicateTasks (out : Var) (filename : Str) : List Task :=
  if net.hasFile me filename then [.sendInvQuery out filename true] else []

def testQueryTasks : List Task :=
  (List.range testQueryCount).map (fun i => .sendQuery .scratch (natToString i) false) ++
    [.sendQuery .scratch (net.ensureQueryhitFile me) false]

def testObtainTasks : List Task :=
  List.replicate testObtainCount (.sendQuery .scratch (net.ensureQueryhitFile me) true)

def testObtainLargeTasks : List Task :=
  List.replicate testObtainLargeCount (.sendQuery .scratch (net.largeFileName me) true)

def commandTasks : Command → List Task
  | .query f => [.sendQuery .run f.1 false]
  | .obtain f => [.sendQuery .run f.1 true]
  | .invQuery f => [.sendInvQuery .run f.1 false]
  | .replicate f => replicateTasks net me .run f.1
  | .testQuery => testQueryTasks net me
  | .testObtain => testObtainTasks net me
  | .concurrent test n => [.createTest test n.1]

def TestCommand.ownTasks : TestCommand → List Task
  | .concurrentTestQuery => testQueryTasks net me
  | .testObtain2 => testObtainTasks net me
  | .testObtain3 => testObtainLargeTasks net me

def TestCommand.request (requirement : Int) : TestCommand → Request
  | .concurrentTestQuery => .conTestQuery requirement
  | .testObtain2 => .conTestObtain requirement 2
  | .testObtain3 => .conTestObtain requirement 3

/-- The message a peer creates next for a request. -/
def newQuery (t : Tables) (now : Int) (r : Request) : Query :=
  { id := t.nextId me now, timeToLive := ttl, sender := me, request := r }

/-- Creating a message, and what the sender goes on with. -/
def create (t : Tables) (out : Var) (now : Int) (r : Request) (wait : Option Str)
    (rest : List Task) : Option Effect :=
  if t.msgIdCounter + 1 < counterLimit then
    some
      { tables := t.afterCreate me out now
        next := .cacheOwn (newQuery me t now r) wait :: rest
        events := [.issued (t.nextId me now) (.query (newQuery me t now r))] }
  else none

/-- The hit a peer answers a query with. -/
def newHit (kind : HitKind) (id : SMessageID) : Hit :=
  { kind := kind, id := id, timeToLive := ttl, origin := me, ip := net.ip me }

/-- What a peer starts on its own for a test it received. -/
def testTasks : Request → List Task
  | .conTestQuery requirement => if me < requirement then testQueryTasks net me else []
  | .conTestObtain requirement variant =>
      if me < requirement then
        (if variant = 2 then testObtainTasks net me else testObtainLargeTasks net me)
      else []
  | _ => []

/-- A handler's own part: answer, record the filename, start a test. -/
def actOnRequest (t : Tables) (x : Query) : Effect :=
  match x.request with
  | .query filename =>
      if net.hasFile me filename then
        let h := newHit net me (.query filename) x.id
        { tables := t, next := [.relayHit h],
          events := [.acted .query x.id, .answered x.id (.hit h)] }
      else { tables := t, next := [.relay x], events := [.acted .query x.id] }
  | .invQuery filename _ =>
      if t.replicateQueryFilename.contains filename then
        { tables := t, events := [.acted .invQuery x.id] }
      else
        let t := { t with replicateQueryFilename := filename :: t.replicateQueryFilename }
        if net.hasFile me filename then
          { tables := t, next := [.relay x], events := [.acted .invQuery x.id] }
        else
          let h := newHit net me .invQuery x.id
          { tables := t, next := [.relayHit h, .relay x],
            events := [.acted .invQuery x.id, .answered x.id (.hit h)] }
  | .conTestQuery _ =>
      { tables := t, next := testTasks net me x.request ++ [.relay x],
        events := [.acted .conTestQuery x.id] }
  | .conTestObtain _ _ =>
      { tables := t, next := testTasks net me x.request ++ [.relay x],
        events := [.acted .conTestObtain x.id] }

/-- What a hit that arrived leads to: the hit list at the originator, one hop
back at any other peer. -/
def hitTasks (now : Int) (t : Tables) (h : Hit) : List Task :=
  if h.id.peerId = me then (if t.isQueryCached h.id then [.record h now] else [])
  else if h.timeToLive - 1 ≤ 0 then []
  else [.relayHit h]

/-- Doing one task; `none` while it has to wait. -/
def perform (now : Int) (t : Tables) : Task → Option Effect
  | .startReplicateAllFiles =>
      some
        { tables := t
          next :=
            if net.replicationFactor me ≤ 1 then []
            else
              ((net.files me).filter fun f => !t.replicateQueryFilename.contains f).flatMap
                (replicateTasks net me .scratch) }
  | .sendQuery out filename wait =>
      create me t out now (.query filename) (if wait then some filename else none) []
  | .sendInvQuery out filename wait =>
      if net.replicationFactor me ≤ 1 then
        some { tables := t, next := if wait then [.setWait (t.messageId out) filename] else [] }
      else
        create me t out now (.invQuery filename (net.replicationFactor me - 1))
          (if wait then some filename else none) []
  | .createTest test requirement =>
      create me t .scratch now (test.request requirement) none (test.ownTasks net me)
  | .cacheOwn x wait =>
      some
        { tables := t.cacheQuery x.id (-1), next := [.broadcastOwn x wait],
          events := t.cacheEvents x.id (-1) }
  | .broadcastOwn x wait =>
      some { tables := t, next := wait.toList.map (.setWait x.id), queued := [(x, -1)] }
  | .setWait id filename =>
      some
        { tables := { t with waitQueryhit := t.waitQueryhit.insert id filename }
          events := [.waitSet id filename] }
  | .handleQuery x =>
      some { tables := t, next := if t.isQueryCached x.id then [] else [.cacheQuery x] }
  | .handleHit h => some { tables := t, next := hitTasks me now t h }
  | .cacheQuery x =>
      some
        { tables := t.cacheQuery x.id x.sender, next := [.act x],
          events := t.cacheEvents x.id x.sender }
  | .act x => some (actOnRequest net me t x)
  | .relay x =>
      match x.relayed me with
      | none => some { tables := t }
      | some y =>
          some { tables := t, queued := [(y, x.sender)], events := [.relayed x.id (.query y)] }
  | .relayHit h =>
      if t.sendBufferMutex then none
      else if (t.queries.index h.id 0).1 ∈ net.peerIdToSockfd me then
        some
          { tables := { t with queries := (t.queries.index h.id 0).2 }
            sent := [((t.queries.index h.id 0).1, .hit h)] }
      else
        some
          { tables :=
              Tables.abort { t with queries := (t.queries.index h.id 0).2 } .assertionFailed }
  | .record h now =>
      some
        { tables :=
            { t with
              queryHitResult :=
                t.queryHitResult.insert h.id
                  ((t.queryHitResult.find? h.id).getD [] ++ [⟨h.serverInfo, now⟩]) }
          next := [.takeWait h]
          events := [.recorded h.id ⟨h.serverInfo, now⟩] }
  | .takeWait h =>
      match t.waitQueryhit.find? h.id with
      | none => some { tables := t, events := [.waitLookedUp h.id false] }
      | some filename =>
          some
            { tables := { t with waitQueryhit := t.waitQueryhit.erase h.id }
              next := [.startTransfers h filename]
              events := [.waitLookedUp h.id true] }
  | .startTransfers h filename =>
      match t.queryHitResult.find? h.id with
      | none => some { tables := t }
      | some results =>
          let requests := transferRequests net me h.kind.type filename results
          some
            { tables := { t with requestQueue := t.requestQueue ++ requests }
              events := [.transfersStarted h.kind.type h.id requests] }
  | .lockSendBuffer x exclude =>
      if t.sendBufferMutex then none
      else
        some
          { tables := { t with sendBufferMutex := true }
            next := (((net.peerIdToSockfd me).filter fun q => q ≠ exclude).map fun q =>
              .sendTo q x) ++ [.unlockSendBuffer] }
  | .sendTo peer x => some { tables := t, sent := [(peer, .query x)] }
  | .unlockSendBuffer => some { tables := { t with sendBufferMutex := false } }
  | .removeOldQueries since =>
      some
        { tables :=
            { t with
              queries := t.queries.filterKeys fun id => !timedOut since queryCacheTimeOut id }
          events := (t.queries.keys.filter (timedOut since queryCacheTimeOut)).map
            .removedQuery }
  | .removeOldQueryHits since =>
      some
        { tables :=
            { t with
              queryHitResult :=
                t.queryHitResult.filterKeys fun id =>
                  !timedOut since queryHitResultsTimeOut id }
          events := (t.queryHitResult.keys.filter (timedOut since queryHitResultsTimeOut)).map
            .removedQueryHits }
  | .removeOldWaits since =>
      some
        { tables :=
            { t with
              waitQueryhit :=
                t.waitQueryhit.filterKeys fun id =>
                  !timedOut since queryHitResultsTimeOut id }
          events := (t.waitQueryhit.keys.filter (timedOut since queryHitResultsTimeOut)).map
            .removedWait }

def mantainTasks (t : Tables) (now : Int) : List Task :=
  if (t.queries.size : Int) < queryCacheTimeOut * 1000 then []
  else [.removeOldQueries now, .removeOldQueryHits now, .removeOldWaits now]

end Perform

/-! ## Steps -/

/-- The tasks an effect puts into the bag. -/
def Effect.work (e : Effect) (p : PeerID) (th : Thread) : List Work :=
  e.next.map (Work.mk (.thread p th)) ++
    (e.queued.map (fun x => Work.mk (.broadcastQueue p) (.lockSendBuffer x.1 x.2)) ++
      e.sent.map fun x => Work.mk (.socket p x.1) x.2.task)

/-- The events of an effect, its sends included. -/
def Effect.history (e : Effect) : List (Event Message) :=
  e.events ++ e.sent.map fun x => .sent x.1 x.2

def Flood.alive (net : Setup) (s : Flood) (p : PeerID) : Prop :=
  p ∈ net.peers ∧ (s.tables p).fault = none

/-- Nothing waits at a place. -/
def Flood.idle (s : Flood) (pl : Place) : Prop := ∀ w ∈ s.work, w.place ≠ pl

/-- The flood after a task was done. -/
def Flood.after (s : Flood) (p : PeerID) (th : Thread) (rest : Multiset Work) (e : Effect) :
    Flood where
  tables := Function.update s.tables p e.tables
  work := rest + e.work p th
  log := s.log ++ e.history.map (p, ·)

inductive FloodStep (net : Setup) : Flood → Label → Flood → Prop
  | run {s : Flood} {p : PeerID} {th : Thread} {now : Int} {task : Task}
      {rest : Multiset Work} {e : Effect} (halive : s.alive net p) (hnow : IsInt64 now)
      (hwork : s.work = Work.mk (.thread p th) task ::ₘ rest)
      (hperform : perform net p now (s.tables p) task = some e) :
      FloodStep net s (.run p th now) (s.after p th rest e)
  | takeMessage {s : Flood} {p : PeerID} {task : Task} {rest : Multiset Work}
      (halive : s.alive net p) (hidle : s.idle (.thread p .message))
      (hwork : s.work = Work.mk (.messagesQueue p) task ::ₘ rest) :
      FloodStep net s (.takeMessage p)
        { s with work := Work.mk (.thread p .message) task ::ₘ rest }
  | takeBroadcast {s : Flood} {p : PeerID} {task : Task} {rest : Multiset Work}
      (halive : s.alive net p) (hidle : s.idle (.thread p .broadcast))
      (hwork : s.work = Work.mk (.broadcastQueue p) task ::ₘ rest) :
      FloodStep net s (.takeBroadcast p)
        { s with work := Work.mk (.thread p .broadcast) task ::ₘ rest }
  | command {s : Flood} {p : PeerID} {cmd : Command} (halive : s.alive net p)
      (hidle : s.idle (.thread p .command)) :
      FloodStep net s (.command p cmd)
        { s with
          work := s.work + (commandTasks net p cmd).map (Work.mk (.thread p .command))
          log := s.log ++ [(p, .command cmd)] }
  | wake {s : Flood} {p : PeerID} {now : Int} (halive : s.alive net p) (hnow : IsInt64 now)
      (hidle : s.idle (.thread p .mantain)) :
      FloodStep net s (.wake p now)
        { s with
          work := s.work + (mantainTasks (s.tables p) now).map (Work.mk (.thread p .mantain)) }
  | deliver {s : Flood} {p q : PeerID} {m : Message} {rest : Multiset Work}
      (halive : s.alive net q) (hwork : s.work = Work.mk (.socket p q) m.task ::ₘ rest) :
      FloodStep net s (.deliver p q)
        { s with
          work := Work.mk (.messagesQueue q) m.task ::ₘ rest
          log := s.log ++ [(q, .received p m)] }

def initialFlood (net : Setup) : Flood where
  tables := initialTables net
  work := net.peers.map fun p => Work.mk (.thread p .replicate) .startReplicateAllFiles
  log := []

def flood (net : Setup) : System Flood Label where
  init s := s = initialFlood net
  step := FloodStep net

end P2PFileSharing
