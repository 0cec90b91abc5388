import P2PFileSharing.Proofs.MessageRound

/-!
# What the round of a query or a hit touches

Every section of the round of a query, a query hit or an inv_query hit reads and writes the
entries of the message's own id, and no others; what else it does is to add to the queues. So
it does the same where these entries are all there is, and it leaves the others as they are.
-/

namespace P2PFileSharing

variable {net : Setup} {me : PeerID} {now : Int} {t : Tables} {message : Str} {id id' : SMessageID}
  {o : Outcome} {sec : Section}

/-- The messages that only deal with entries of their own id. An inv_query also looks up its
filename, and the test messages start queries of their own. -/
def MessageKind.Keyed : MessageKind → Prop
  | .flood .query | .hit _ => True
  | .flood _ => False

/-- The sections of the round of a message with this id. -/
def Section.About (id : SMessageID) : Section → Prop
  | .handle message =>
      (∃ kind, messageKind message = some kind ∧ kind.Keyed) ∧
        parseMessageId (splitFields message) = .ok id
  | .cacheQuery handler _ id' _ | .act handler _ id' _ | .relayQuery handler _ id' _ =>
      handler = .query ∧ id' = id
  | .relayQueryHit _ id' | .recordQueryHit _ id' _ | .takeWaitQueryHit _ id'
  | .startTransfers _ id' _ => id' = id
  | _ => False

/-- The peer with no entries but those of this id, another request queue and the mutex free. -/
def Tables.only (t : Tables) (id : SMessageID) (queue : List SClientRequest) : Tables :=
  { t with
    queries := t.queries.only id
    queryHitResult := t.queryHitResult.only id
    waitQueryhit := t.waitQueryhit.only id
    requestQueue := queue
    sendBufferMutex := false }

/-- The peer without the entries of this id, and without what is not told apart by id. -/
def Tables.except (t : Tables) (id : SMessageID) : Tables :=
  { t with
    queries := t.queries.erase id
    queryHitResult := t.queryHitResult.erase id
    waitQueryhit := t.waitQueryhit.erase id
    requestQueue := []
    sendBufferMutex := false
    fault := none }

/-- A section that read and wrote entries of this id only, with what it came to. -/
structure StaysAt (net : Setup) (me : PeerID) (now : Int) (id : SMessageID) (t : Tables)
    (sec : Section) (o : Outcome) : Prop where
  next : ∀ sec ∈ o.next, sec.About id
  except : o.tables.except id = t.except id
  only : ∃ requests, o.tables.requestQueue = t.requestQueue ++ requests ∧
    ∀ queue, exec net me now (t.only id queue) sec =
      some { o with tables := o.tables.only id (queue ++ requests) }

/-! ## Sections that only read -/

/-- What a handler computes, put back on the members it was given. -/
def Outcome.withTables (o : Outcome) (t : Tables) : Outcome := { o with tables := t }

/-- A handler that leaves the members alone, and computes the same from the entries of its id. -/
theorem staysAt_of_reads {f : Tables → Except Fault Outcome}
    (hexec : ∀ t, exec net me now t sec = some (orAbort t (f t)))
    (hsame : ∀ queue, f (t.only id queue) = (f t).map fun o => o.withTables (t.only id queue))
    (hkeep : ∀ o, f t = .ok o → o.tables = t ∧ ∀ sec ∈ o.next, sec.About id)
    (h : exec net me now t sec = some o) : StaysAt net me now id t sec o := by
  rw [hexec] at h
  injection h with h
  rw [← h]
  cases hf : f t with
  | error e =>
      refine ⟨List.forall_mem_nil _, rfl, [], (List.append_nil _).symm, fun queue => ?_⟩
      rw [hexec, hsame, hf, List.append_nil]
      rfl
  | ok o =>
      obtain ⟨htables, hnext⟩ := hkeep o hf
      refine ⟨hnext, by rw [orAbort, htables], [], ?_, fun queue => ?_⟩
      · rw [orAbort, htables, List.append_nil]
      · rw [hexec, hsame, hf, List.append_nil]
        show some (o.withTables (t.only id queue)) =
          some (o.withTables (o.tables.only id queue))
        rw [htables]

theorem isQueryCached_only (t : Tables) (id : SMessageID) (queue : List SClientRequest) :
    (t.only id queue).isQueryCached id = t.isQueryCached id := by
  rw [Tables.isQueryCached, Tables.isQueryCached, Tables.only, UnorderedMap.find?_only]

theorem receiveQuery_only (hid : parseMessageId (splitFields message) = .ok id)
    (queue : List SClientRequest) :
    receiveQuery .query (t.only id queue) message =
      (receiveQuery .query t message).map fun o => o.withTables (t.only id queue) := by
  simp only [receiveQuery, hid, bind, Except.bind, isQueryCached_only]
  split
  · rfl
  · cases field (splitFields message) 5 with
    | error e => rfl
    | ok text =>
        cases hstoi : stoi text with
        | error e => simp only [hstoi, Except.map]
        | ok upstream => simp only [hstoi]; rfl

theorem receiveQuery_about (hid : parseMessageId (splitFields message) = .ok id)
    (h : receiveQuery .query t message = .ok o) :
    o.tables = t ∧ ∀ sec ∈ o.next, sec.About id := by
  obtain ⟨id', hid', hcases⟩ := receiveQuery_cases h
  rw [hid] at hid'
  injection hid' with hid'
  rw [← hid'] at hcases
  rcases hcases with ⟨-, rfl⟩ | ⟨-, upstream, rfl⟩
  · exact ⟨rfl, List.forall_mem_nil _⟩
  · exact ⟨rfl, List.forall_mem_singleton.mpr ⟨rfl, rfl⟩⟩

theorem handleQueryHit_only (hid : parseMessageId (splitFields message) = .ok id)
    (queue : List SClientRequest) :
    handleQueryHit me now (t.only id queue) message =
      (handleQueryHit me now t message).map fun o => o.withTables (t.only id queue) := by
  obtain ⟨type, htype⟩ := field_zero_of_id hid
  simp only [handleQueryHit, hid, htype, bind, Except.bind, isQueryCached_only]
  split
  · split
    · rfl
    · cases field (splitFields message) 5 with
      | error e => rfl
      | ok text =>
          dsimp only
          cases stoi text with
          | error e => rfl
          | ok originator =>
              cases field (splitFields message) 6 with
              | error e => rfl
              | ok ip => rfl
  · cases field (splitFields message) 4 with
    | error e => rfl
    | ok text =>
        dsimp only
        cases stoi text with
        | error e => rfl
        | ok timeToLive =>
            dsimp only
            split <;> rfl

theorem handleQueryHit_about (hid : parseMessageId (splitFields message) = .ok id)
    (h : handleQueryHit me now t message = .ok o) :
    o.tables = t ∧ ∀ sec ∈ o.next, sec.About id := by
  rcases handleQueryHit_cases h with ⟨f, hid', -⟩ | ⟨id', hid', hcases⟩
  · rw [hid] at hid'
    cases hid'
  · rw [hid] at hid'
    injection hid' with hid'
    rw [← hid'] at hcases
    rcases hcases with ⟨-, ⟨-, rfl⟩ | ⟨type, result, rfl⟩⟩ |
      ⟨-, text, timeToLive, -, -, ⟨-, rfl⟩ | rfl⟩
    · exact ⟨rfl, List.forall_mem_nil _⟩
    · exact ⟨rfl, List.forall_mem_singleton.mpr rfl⟩
    · exact ⟨rfl, List.forall_mem_nil _⟩
    · exact ⟨rfl, List.forall_mem_singleton.mpr rfl⟩

/-- The first section of the round. -/
theorem staysAt_handle {kind : MessageKind} (hkind : messageKind message = some kind)
    (hkeyed : kind.Keyed) (hid : parseMessageId (splitFields message) = .ok id)
    (h : exec net me now t (.handle message) = some o) :
    StaysAt net me now id t (.handle message) o := by
  have hexec : ∀ t, exec net me now t (.handle message) =
      some (orAbort t (handleMessage me now t message)) := fun _ => rfl
  cases kind with
  | flood handler =>
      cases handler with
      | query =>
          simp only [handleMessage_of_flood me now _ hkind] at hexec
          exact staysAt_of_reads hexec (receiveQuery_only hid)
            (fun o ho => receiveQuery_about hid ho) h
      | invQuery | conTestQuery | conTestObtain => exact absurd hkeyed not_false
  | hit type =>
      simp only [handleMessage_of_hit me now _ hkind] at hexec
      exact staysAt_of_reads hexec (handleQueryHit_only hid)
        (fun o ho => handleQueryHit_about hid ho) h

theorem staysAt_act {upstream : PeerID}
    (h : exec net me now t (.act .query message id upstream) = some o) :
    StaysAt net me now id t (.act .query message id upstream) o := by
  refine staysAt_of_reads (f := fun t => actOnQuery net me t message id upstream)
    (fun _ => rfl) (fun queue => ?_) (fun o ho => ?_) h
  · unfold actOnQuery
    cases field (splitFields message) 6 with
    | error e => rfl
    | ok filename =>
        simp only [bind, Except.bind]
        split <;> rfl
  · unfold actOnQuery at ho
    obtain ⟨filename, -, ho⟩ := bind_eq_ok.mp ho
    split at ho
    · injection ho with ho
      rw [← ho]
      exact ⟨rfl, List.forall_mem_singleton.mpr rfl⟩
    · injection ho with ho
      rw [← ho]
      exact ⟨rfl, List.forall_mem_singleton.mpr ⟨rfl, rfl⟩⟩

theorem staysAt_relayQuery {upstream : PeerID}
    (h : exec net me now t (.relayQuery .query message id upstream) = some o) :
    StaysAt net me now id t (.relayQuery .query message id upstream) o := by
  refine staysAt_of_reads (f := fun t => relayQuery me .query t message id upstream)
    (fun _ => rfl) (fun queue => ?_) (fun o ho => ?_) h
  · unfold relayQuery
    simp only [reduceCtorEq, if_false, bind, Except.bind, pure, Except.pure]
    cases field (splitFields message) 4 with
    | error e => rfl
    | ok text =>
        dsimp only
        cases stoi text with
        | error e => rfl
        | ok timeToLive =>
            dsimp only
            split <;> rfl
  · unfold relayQuery at ho
    simp only [reduceCtorEq, if_false, pure, Except.pure] at ho
    obtain ⟨vec, hvec, ho⟩ := bind_eq_ok.mp ho
    injection hvec with hvec
    rw [← hvec] at ho
    obtain ⟨text, -, ho⟩ := bind_eq_ok.mp ho
    obtain ⟨timeToLive, -, ho⟩ := bind_eq_ok.mp ho
    split at ho
    · injection ho with ho
      rw [← ho]
      exact ⟨rfl, List.forall_mem_nil _⟩
    · injection ho with ho
      rw [← ho]
      exact ⟨rfl, List.forall_mem_nil _⟩

/-! ## Sections that write -/

theorem cacheQuery_only (t : Tables) (id : SMessageID) (queue : List SClientRequest)
    (upstream : PeerID) :
    (t.only id queue).cacheQuery id upstream = (t.cacheQuery id upstream).only id queue := by
  rw [Tables.cacheQuery, Tables.cacheQuery, isQueryCached_only]
  split
  · rfl
  · rw [Tables.only, Tables.only, UnorderedMap.only_insert]

theorem cacheQuery_except (t : Tables) (id : SMessageID) (upstream : PeerID) :
    (t.cacheQuery id upstream).except id = t.except id := by
  rw [Tables.cacheQuery]
  split
  · rfl
  · rw [Tables.except, Tables.except, UnorderedMap.erase_insert]

theorem cacheQuery_requestQueue (t : Tables) (id : SMessageID) (upstream : PeerID) :
    (t.cacheQuery id upstream).requestQueue = t.requestQueue := by
  rw [Tables.cacheQuery]
  split <;> rfl

theorem staysAt_cacheQuery {upstream : PeerID}
    (h : exec net me now t (.cacheQuery .query message id upstream) = some o) :
    StaysAt net me now id t (.cacheQuery .query message id upstream) o := by
  injection h with h
  rw [← h]
  refine ⟨List.forall_mem_singleton.mpr ⟨rfl, rfl⟩, cacheQuery_except t id upstream, [], ?_,
    fun queue => ?_⟩
  · rw [List.append_nil]
    exact cacheQuery_requestQueue t id upstream
  · rw [List.append_nil]
    simp only [exec, cacheUpstream, cacheQuery_only, Tables.cacheEvents, isQueryCached_only]

theorem staysAt_relayQueryHit (h : exec net me now t (.relayQueryHit message id) = some o) :
    StaysAt net me now id t (.relayQueryHit message id) o := by
  have hindex := UnorderedMap.index_only t.queries id 0
  have hrun : relayQueryHit net me t message id = some o := h
  rw [relayQueryHit] at hrun
  split at hrun
  · cases hrun
  · dsimp only at hrun
    split at hrun
    · next hpeer =>
        injection hrun with hrun
        rw [← hrun]
        refine ⟨List.forall_mem_nil _, ?_, [], (List.append_nil _).symm, fun queue => ?_⟩
        · rw [Tables.except, Tables.except, UnorderedMap.erase_index]
        · rw [List.append_nil]
          show relayQueryHit net me (t.only id queue) message id = _
          rw [relayQueryHit]
          simp only [Tables.only, hindex, if_pos hpeer, Bool.false_eq_true, if_false]
    · next hpeer =>
        injection hrun with hrun
        rw [← hrun]
        refine ⟨List.forall_mem_nil _, ?_, [], (List.append_nil _).symm, fun queue => ?_⟩
        · rw [Tables.abort, Tables.except, Tables.except, UnorderedMap.erase_index]
        · rw [List.append_nil]
          show relayQueryHit net me (t.only id queue) message id = _
          rw [relayQueryHit]
          simp only [Tables.only, hindex, if_neg hpeer, Bool.false_eq_true, if_false, Tables.abort]

theorem staysAt_recordQueryHit {type : Str} {result : SQueryResult}
    (h : exec net me now t (.recordQueryHit type id result) = some o) :
    StaysAt net me now id t (.recordQueryHit type id result) o := by
  injection h with h
  rw [← h]
  refine ⟨List.forall_mem_singleton.mpr rfl, ?_, [], (List.append_nil _).symm, fun queue => ?_⟩
  · rw [recordQueryHit, Tables.except, Tables.except, UnorderedMap.erase_insert]
  · rw [List.append_nil]
    simp only [exec, recordQueryHit, Tables.only, UnorderedMap.find?_only, UnorderedMap.only_insert]

theorem staysAt_takeWaitQueryHit {type : Str}
    (h : exec net me now t (.takeWaitQueryHit type id) = some o) :
    StaysAt net me now id t (.takeWaitQueryHit type id) o := by
  have hfind : ∀ queue, (t.only id queue).waitQueryhit.find? id = t.waitQueryhit.find? id :=
    fun _ => UnorderedMap.find?_only _ _
  injection h with h
  rw [← h]
  cases hwait : t.waitQueryhit.find? id with
  | none =>
      simp only [takeWaitQueryHit, hwait]
      refine ⟨List.forall_mem_nil _, rfl, [], (List.append_nil _).symm, fun queue => ?_⟩
      rw [List.append_nil, exec, takeWaitQueryHit, hfind, hwait]
  | some filename =>
      simp only [takeWaitQueryHit, hwait]
      refine ⟨List.forall_mem_singleton.mpr rfl, ?_, [], (List.append_nil _).symm,
        fun queue => ?_⟩
      · rw [Tables.except, Tables.except, UnorderedMap.erase_erase]
      · rw [List.append_nil, exec, takeWaitQueryHit, hfind, hwait]
        simp only [Tables.only, UnorderedMap.only_erase]

theorem staysAt_startTransfers {type filename : Str}
    (h : exec net me now t (.startTransfers type id filename) = some o) :
    StaysAt net me now id t (.startTransfers type id filename) o := by
  have hfind : ∀ queue, (t.only id queue).queryHitResult.find? id = t.queryHitResult.find? id :=
    fun _ => UnorderedMap.find?_only _ _
  injection h with h
  rw [← h]
  cases hresults : t.queryHitResult.find? id with
  | none =>
      simp only [startTransfers, hresults]
      refine ⟨List.forall_mem_nil _, rfl, [], (List.append_nil _).symm, fun queue => ?_⟩
      rw [List.append_nil, exec, startTransfers, hfind, hresults]
  | some results =>
      simp only [startTransfers, hresults]
      refine ⟨List.forall_mem_nil _, rfl, transferRequests net me type filename results, rfl,
        fun queue => ?_⟩
      rw [exec, startTransfers, hfind, hresults]
      rfl

/-- Every section of such a round stays with the entries of its id. -/
theorem staysAt_of_about (hsec : sec.About id) (h : exec net me now t sec = some o) :
    StaysAt net me now id t sec o := by
  cases sec with
  | handle message =>
      obtain ⟨⟨kind, hkind, hkeyed⟩, hid⟩ := hsec
      exact staysAt_handle hkind hkeyed hid h
  | cacheQuery handler message id' upstream =>
      obtain ⟨rfl, rfl⟩ := hsec
      exact staysAt_cacheQuery h
  | act handler message id' upstream =>
      obtain ⟨rfl, rfl⟩ := hsec
      exact staysAt_act h
  | relayQuery handler message id' upstream =>
      obtain ⟨rfl, rfl⟩ := hsec
      exact staysAt_relayQuery h
  | relayQueryHit message id' =>
      obtain rfl := hsec
      exact staysAt_relayQueryHit h
  | recordQueryHit type id' result =>
      obtain rfl := hsec
      exact staysAt_recordQueryHit h
  | takeWaitQueryHit type id' =>
      obtain rfl := hsec
      exact staysAt_takeWaitQueryHit h
  | startTransfers type id' filename =>
      obtain rfl := hsec
      exact staysAt_startTransfers h
  | startReplicateAllFiles | sendQuery | sendInvQuery | createCommonQuery | cacheOwnQuery
  | broadcastOwn | setWaitQueryHit | lockSendBuffer | sendTo | unlockSendBuffer
  | removeOldQueries | removeOldQueryHits | removeOldWaits => exact absurd hsec not_false

end P2PFileSharing
