import P2PFileSharing.Proofs.Codec
import P2PFileSharing.Spec.Flood

/-!
# The handlers compute what the tasks say

Each program point of the code, run on the texts of valid messages, does to the
members, the queues, the streams and the history what the task it stands for
does with the values. The text handlers can fault, by an index or a number that
is not there; on a valid message none of them does, and that is part of the
statement, since a task has no such outcome.
-/

namespace P2PFileSharing

/-! ## Effects as outcomes -/

/-- An event with its message printed. -/
def Event.map {M N : Type} (f : M → N) : Event M → Event N
  | .command cmd => .command cmd
  | .issued id m => .issued id (f m)
  | .cached id upstream => .cached id upstream
  | .acted handler id => .acted handler id
  | .answered id m => .answered id (f m)
  | .relayed id m => .relayed id (f m)
  | .sent dst m => .sent dst (f m)
  | .received src m => .received src (f m)
  | .waitSet id filename => .waitSet id filename
  | .recorded id result => .recorded id result
  | .waitLookedUp id found => .waitLookedUp id found
  | .transfersStarted type id requests => .transfersStarted type id requests
  | .removedQuery id => .removedQuery id
  | .removedQueryHits id => .removedQueryHits id
  | .removedWait id => .removedWait id

/-- What an effect is to the code. -/
def Effect.code (e : Effect) : Outcome where
  tables := e.tables
  next := e.next.map Task.code
  queued := e.queued.map fun x => (x.1.text, x.2)
  sent := e.sent.map fun x => (x.1, x.2.text)
  events := e.events.map (Event.map Message.text)

/-- The tasks whose messages, names and numbers the texts can carry. -/
def Task.Valid : Task → Prop
  | .sendQuery _ filename _ => ValidName filename
  | .sendInvQuery _ filename _ => ValidName filename
  | .createTest _ requirement => IsInt requirement
  | .cacheOwn x _ | .broadcastOwn x _ | .handleQuery x | .cacheQuery x | .act x | .relay x
  | .lockSendBuffer x _ | .sendTo _ x => x.Valid
  | .handleHit h | .relayHit h | .record h _ | .takeWait h | .startTransfers h _ => h.Valid
  | _ => True

section Code

variable (net : Setup) (me : PeerID)

theorem replicateTasks_code (out : Var) (filename : Str) :
    (replicateTasks net me out filename).map Task.code = replicateFile net me out filename := by
  unfold replicateTasks replicateFile
  split <;> rfl

theorem testQueryTasks_code : (testQueryTasks net me).map Task.code = sendTestQuery net me := by
  rw [testQueryTasks, sendTestQuery, List.map_append, List.map_map]
  rfl

theorem flatten_replicate_singleton {α : Type} (n : Nat) (a : α) :
    (List.replicate n [a]).flatten = List.replicate n a := by
  induction n with
  | zero => rfl
  | succ n ih =>
      rw [List.replicate_succ, List.flatten_cons, ih, List.replicate_succ]
      rfl

theorem testObtainTasks_code :
    (testObtainTasks net me).map Task.code = sendTestObtain net me := by
  rw [testObtainTasks, List.map_replicate, sendTestObtain, obtainFile,
    flatten_replicate_singleton]
  rfl

theorem testObtainLargeTasks_code :
    (testObtainLargeTasks net me).map Task.code = sendTestObtainLarge net me := by
  rw [testObtainLargeTasks, List.map_replicate, sendTestObtainLarge, obtainFile,
    flatten_replicate_singleton]
  rfl

theorem commandTasks_code (cmd : Command) :
    (commandTasks net me cmd).map Task.code = runCommand net me cmd := by
  cases cmd with
  | query | obtain | invQuery | concurrent => rfl
  | replicate f => exact replicateTasks_code net me _ _
  | testQuery => exact testQueryTasks_code net me
  | testObtain => exact testObtainTasks_code net me

theorem ownTasks_code (test : TestCommand) :
    (test.ownTasks net me).map Task.code = test.ownTest net me := by
  cases test with
  | concurrentTestQuery => exact testQueryTasks_code net me
  | testObtain2 => exact testObtainTasks_code net me
  | testObtain3 => exact testObtainLargeTasks_code net me

theorem mantainTasks_code (t : Tables) (now : Int) :
    (mantainTasks t now).map Task.code = mantainQueryMapSize t now := by
  unfold mantainTasks mantainQueryMapSize
  split <;> rfl

theorem cacheEvents_map {M N : Type} (f : M → N) (t : Tables) (id : SMessageID)
    (upstream : PeerID) :
    (t.cacheEvents id upstream : List (Event M)).map (Event.map f) =
      t.cacheEvents id upstream := by
  unfold Tables.cacheEvents
  split <;> rfl

/-! ## Creating messages -/

theorem create_code (t : Tables) (out : Var) (now : Int) (r : Request) (wait : Option Str)
    (rest : List Task) (text : Str) (restCode : List Section)
    (htext : (newQuery me t now r).text = text) (hrest : rest.map Task.code = restCode) :
    createMessage me t out now text wait restCode =
      (create me t out now r wait rest).map Effect.code := by
  subst htext hrest
  unfold createMessage create
  split <;> rfl

theorem createTest_text (t : Tables) (now : Int) (test : TestCommand) (n : Int) :
    (newQuery me t now (test.request n)).text =
      createTestMessage me (t.nextId me now) test n := by
  cases test <;> rfl

/-! ## The flooded messages -/

theorem receiveQuery_text {x : Query} (hv : x.Valid) (handler : Handler) (t : Tables) :
    receiveQuery handler t x.text =
      .ok { tables := t
            next := if t.isQueryCached x.id then []
              else [.cacheQuery handler x.text x.id x.sender] } := by
  have h5 : field x.fields 5 = .ok (intToString x.sender) := rfl
  have hid : parseMessageId x.fields = .ok x.id := parseMessageId_fields hv.1 _ _ _ _
  simp only [receiveQuery, splitFields_query hv, hid, h5, bind, Except.bind,
    stoi_intToString hv.2.2.1]
  split <;> rfl

theorem command_query (x : Query) :
    x.text.takeWhile (fun c => c ≠ peerMsgTypeDelim) = x.request.type :=
  takeWhile_joinFields (newline_notMem_requestType _) _ _

theorem command_hit (h : Hit) :
    h.text.takeWhile (fun c => c ≠ peerMsgTypeDelim) = h.kind.type :=
  takeWhile_joinFields (newline_notMem_hitType _) _ _

theorem handleMessage_query {x : Query} (hv : x.Valid) (now : Int) (t : Tables) :
    handleMessage me now t x.text =
      .ok { tables := t
            next := if t.isQueryCached x.id then []
              else [.cacheQuery x.request.handler x.text x.id x.sender] } := by
  simp only [handleMessage, command_query]
  cases hr : x.request with
  | query f => exact receiveQuery_text hv .query t
  | invQuery f k => exact receiveQuery_text hv .invQuery t
  | conTestQuery n => exact receiveQuery_text hv .conTestQuery t
  | conTestObtain n v => exact receiveQuery_text hv .conTestObtain t

theorem testTasks_code_query (n : Int) :
    (testTasks net me (.conTestQuery n)).map Task.code =
      if me < n then sendTestQuery net me else [] := by
  rw [testTasks]
  split
  · exact testQueryTasks_code net me
  · rfl

theorem actOn_text {x : Query} (hv : x.Valid) (t : Tables) :
    actOn net me x.request.handler t x.text x.id x.sender =
      .ok (actOnRequest net me t x).code := by
  have hr := hv.2.2.2
  cases hreq : x.request with
  | query f =>
      have h6 : field x.fields 6 = .ok f :=
        field_of_getElem? (by simp [Query.fields, headFields, hreq, Request.args])
      simp only [Request.handler, actOn, actOnQuery, splitFields_query hv, h6, bind,
        Except.bind, actOnRequest, hreq]
      split <;> simp [pure, Except.pure, Effect.code, Task.code, hreq, Request.handler,
        Event.map, newHit, Message.text, Hit.text, Hit.fields, HitKind.type, HitKind.args,
        headFields, createQueryHitMessage, commonFields]
  | invQuery f k =>
      rw [hreq] at hr
      have h6 : field x.fields 6 = .ok f :=
        field_of_getElem? (by simp [Query.fields, headFields, hreq, Request.args])
      have h7 : field x.fields 7 = .ok (intToString k) :=
        field_of_getElem? (by simp [Query.fields, headFields, hreq, Request.args])
      simp only [Request.handler, actOn, actOnInvQuery, splitFields_query hv, h6, h7, bind,
        Except.bind, stoi_intToString hr.2.isInt, actOnRequest, hreq]
      split
      · rfl
      · split <;> simp [pure, Except.pure, Effect.code, Task.code, hreq, Request.handler,
          Event.map, newHit, Message.text, Hit.text, Hit.fields, HitKind.type, HitKind.args,
          headFields, createInvQueryHitMessage, commonFields]
  | conTestQuery n =>
      rw [hreq] at hr
      have h6 : field x.fields 6 = .ok (intToString n) :=
        field_of_getElem? (by simp [Query.fields, headFields, hreq, Request.args])
      have hn : stoi (intToString n) = .ok n := stoi_intToString hr
      simp [Request.handler, actOn, actOnConcurrentTestQuery, splitFields_query hv, h6, bind,
        Except.bind, hn, actOnRequest, hreq, pure, Except.pure, Effect.code, Task.code,
        Event.map, testTasks_code_query]
  | conTestObtain n v =>
      rw [hreq] at hr
      have h6 : field x.fields 6 = .ok (intToString n) :=
        field_of_getElem? (by simp [Query.fields, headFields, hreq, Request.args])
      have h7 : field x.fields 7 = .ok (natToString v) :=
        field_of_getElem? (by simp [Query.fields, headFields, hreq, Request.args])
      have hn : stoi (intToString n) = .ok n := stoi_intToString hr
      have hv2 : (natToString v = natToString 2) = (v = 2) :=
        propext ⟨natToString_injective, fun h => by rw [h]⟩
      simp only [Request.handler, actOn, actOnConcurrentTestObtain, splitFields_query hv, h6,
        h7, bind, Except.bind, hn, actOnRequest, hreq, testTasks]
      by_cases hlt : me < n
      · by_cases hvar : v = 2
        · simp [hlt, hvar, pure, Except.pure, Effect.code, Task.code, Event.map, hreq,
            Request.handler, testObtainTasks_code]
        · have hvar' : natToString v ≠ natToString 2 := by rwa [ne_eq, hv2]
          simp [hlt, hvar, hvar', pure, Except.pure, Effect.code, Task.code, Event.map, hreq,
            Request.handler, testObtainLargeTasks_code]
      · simp [hlt, pure, Except.pure, Effect.code, Task.code, Event.map, hreq, Request.handler]

theorem relayQuery_text {x : Query} (hv : x.Valid) (t : Tables) :
    relayQuery me x.request.handler t x.text x.id x.sender =
      .ok (match x.relayed me with
        | none => { tables := t }
        | some y =>
            { tables := t, queued := [(y.text, x.sender)],
              events := [.relayed x.id y.text] }) := by
  have hsplit := splitFields_query hv
  obtain ⟨-, httl, -, hr⟩ := hv
  have h4 : field x.fields 4 = .ok (intToString x.timeToLive) := rfl
  have hstoi := stoi_intToString httl.isInt
  have hless := httl.wrapInt_sub_one
  cases hreq : x.request with
  | invQuery f k =>
      rw [hreq] at hr
      have h7 : field x.fields 7 = .ok (intToString k) :=
        field_of_getElem? (by simp [Query.fields, headFields, hreq, Request.args])
      have h4' : ∀ s, field (x.fields.set 7 s) 4 = .ok (intToString x.timeToLive) := by
        intro s
        exact field_of_getElem? (by simp [Query.fields, headFields])
      simp only [relayQuery, Request.handler, hsplit, h7, bind, Except.bind,
        stoi_intToString hr.2.isInt, hr.2.wrapInt_sub_one, if_true, Query.relayed, hreq,
        Request.exhausted, decide_eq_true_eq]
      by_cases hk : k - 1 ≤ 0
      · simp [hk, pure, Except.pure]
      · by_cases ht : x.timeToLive - 1 ≤ 0
        · simp [hk, ht, h4', hstoi, hless, pure, Except.pure]
        · have hset : ((x.fields.set 7 (intToString (k - 1))).set 4
              (intToString (x.timeToLive - 1))).set 5 (intToString me) =
              Query.fields ⟨x.id, x.timeToLive - 1, me, .invQuery f (k - 1)⟩ := by
            simp [Query.fields, headFields, hreq, Request.args, Request.type]
          simp [hk, ht, h4', hstoi, hless, pure, Except.pure, hset, Query.text,
            Request.decrease]
  | query | conTestQuery | conTestObtain =>
      simp only [relayQuery, Request.handler, hsplit, bind, Except.bind,
        reduceCtorEq, if_false, Query.relayed, hreq, Request.exhausted]
      by_cases ht : x.timeToLive - 1 ≤ 0
      · simp [ht, pure, Except.pure, h4, hstoi, hless]
      · have hset : (x.fields.set 4 (intToString (x.timeToLive - 1))).set 5 (intToString me) =
            Query.fields ⟨x.id, x.timeToLive - 1, me, x.request⟩ := by
          simp [Query.fields, headFields]
        rw [hreq] at hset
        simp [ht, pure, Except.pure, h4, hstoi, hless, hset, Query.text, Request.decrease]

/-! ## Hits -/

theorem handleMessage_hit {h : Hit} (hv : h.Valid) (now : Int) (t : Tables) :
    handleMessage me now t h.text =
      .ok { tables := t, next := (hitTasks me now t h).map Task.code } := by
  have hcmd : handleMessage me now t h.text = handleQueryHit me now t h.text := by
    simp only [handleMessage, command_hit]
    cases h.kind <;> rfl
  have hsplit := splitFields_hit hv
  obtain ⟨hid, httl, horigin, -, -⟩ := hv
  have hid' : parseMessageId h.fields = .ok h.id := parseMessageId_fields hid _ _ _ _
  have h0 : field h.fields 0 = .ok h.kind.type := rfl
  have h4 : field h.fields 4 = .ok (intToString h.timeToLive) := rfl
  have h5 : field h.fields 5 = .ok (intToString h.origin) := rfl
  have h6 : field h.fields 6 = .ok h.ip := rfl
  rw [hcmd]
  simp only [handleQueryHit, hsplit, hid', h0, h4, h5, h6, bind, Except.bind,
    stoi_intToString httl.isInt, httl.wrapInt_sub_one, stoi_intToString horigin, hitTasks]
  by_cases hme : h.id.peerId = me
  · by_cases hc : t.isQueryCached h.id = true
    · simp [hme, hc, pure, Except.pure, Task.code, Hit.serverInfo]
    · simp [hme, hc, pure, Except.pure]
  · by_cases ht : h.timeToLive - 1 ≤ 0
    · simp [hme, ht, pure, Except.pure]
    · simp [hme, ht, pure, Except.pure, Task.code, Hit.text]

/-! ## All program points -/

/-- **Every program point refines its task.** -/
theorem exec_code {task : Task} (hv : task.Valid) (now : Int) (t : Tables) :
    exec net me now t task.code = (perform net me now t task).map Effect.code := by
  cases task with
  | startReplicateAllFiles =>
      simp only [Task.code, exec, perform, startReplicateAllFiles, Option.map_some]
      split
      · rfl
      · have hcode : (fun f => (replicateTasks net me .scratch f).map Task.code) =
            replicateFile net me .scratch := by
          funext f
          exact replicateTasks_code net me _ f
        simp [Effect.code, List.map_flatMap, hcode]
  | sendQuery out f w => exact create_code me t out now _ _ [] _ [] rfl rfl
  | sendInvQuery out f w =>
      simp only [Task.code, exec, perform, sendInvQuery]
      split
      · cases w <;> rfl
      · next hfactor =>
          refine create_code me t out now _ _ [] _ [] ?_ rfl
          rw [createInvQueryMessage, net.wrapInt_factor (Int.not_le.mp hfactor)]
          rfl
  | createTest test n =>
      exact create_code me t .scratch now _ _ _ _ _ (createTest_text me t now test n)
        (ownTasks_code net me test)
  | cacheOwn x w =>
      simp only [Task.code, exec, perform, cacheOwnQuery, Option.map_some, Effect.code,
        cacheEvents_map]
      rfl
  | broadcastOwn x w => cases w <;> rfl
  | setWait | unlockSendBuffer | record | sendTo => rfl
  | handleQuery x =>
      simp only [Task.code, exec, perform, handleMessage_query me hv, orAbort, Option.map_some,
        Effect.code]
      split <;> rfl
  | handleHit h =>
      simp only [Task.code, exec, perform, handleMessage_hit me hv, orAbort, Option.map_some,
        Effect.code]
      rfl
  | cacheQuery x =>
      simp only [Task.code, exec, perform, cacheUpstream, Option.map_some, Effect.code,
        cacheEvents_map]
      rfl
  | act x =>
      simp only [Task.code, exec, perform, actOn_text net me hv, orAbort, Option.map_some]
  | relay x =>
      simp only [Task.code, exec, perform, relayQuery_text me hv, orAbort]
      cases x.relayed me <;> rfl
  | relayHit h =>
      simp only [Task.code, exec, perform, relayQueryHit]
      split
      · rfl
      · split <;> rfl
  | takeWait h =>
      simp only [Task.code, exec, perform, takeWaitQueryHit]
      cases t.waitQueryhit.find? h.id <;> rfl
  | startTransfers h f =>
      simp only [Task.code, exec, perform, startTransfers]
      cases t.queryHitResult.find? h.id <;> rfl
  | lockSendBuffer x e =>
      simp only [Task.code, exec, perform, lockSendBuffer]
      split
      · rfl
      · simp [Effect.code, Task.code]
  | removeOldQueries | removeOldQueryHits | removeOldWaits =>
      simp [Task.code, exec, perform, Effect.code, removeOldQueries, removeOldQueryHits,
        removeOldWaits, Event.map]

end Code

end P2PFileSharing
