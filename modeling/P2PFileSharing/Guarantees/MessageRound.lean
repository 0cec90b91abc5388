import P2PFileSharing.Model.Scenario
import P2PFileSharing.Proofs.MessageRound

/-!
# What a malformed message does

A handler checks neither how many fields a message has nor, but for the id of a hit,
whether its numbers convert. A well-formed message is handled without an exception. Any
other is dropped without effect in the cases in which the handler would have dropped it
anyway, before it came to what is wrong with it; else an exception ends the process, or the
message is cached, recorded or relayed like any other.
-/

namespace P2PFileSharing

variable {net : Setup} {me : PeerID} {now : Int} {t t' : Tables} {message : Str} {s : Round}

/-- The members of the peer are what they were, except for the mutex, which the broadcast
thread may have given back, and nothing is sent or going to be. -/
structure Untouched (t : Tables) (s : Round) : Prop where
  tables : { s.tables with sendBufferMutex := t.sendBufferMutex } = t
  queued : s.queued = []
  sent : s.sent = []

/-- No index past the fields and no conversion ends the round of a message; and a message
that is not well formed leaves the peer as it is. -/
structure HandlesSafely (net : Setup) (me : PeerID) (t : Tables) (message : Str) : Prop where
  no_exception : ∀ s, (messageRound net me t message).Reachable s →
    ∀ f, s.tables.fault = some f → f = .assertionFailed
  no_effect : ¬WellFormed message →
    ∀ s, (messageRound net me t message).Reachable s → Untouched t s

/-- The handler returns at once: it is no message for this peer to act on. -/
inductive Dropped (me : PeerID) (t : Tables) (message : Str) : Prop
  /-- No command of the six. -/
  | wrongCommand (hkind : messageKind message = none)
  /-- A flooded message with an id that is in `m_queries`. -/
  | cached {handler : Handler} {id : SMessageID}
      (hkind : messageKind message = some (.flood handler))
      (hid : parseMessageId (splitFields message) = .ok id) (hcached : t.isQueryCached id = true)
  /-- A hit with a number in its id that does not convert. -/
  | badId {type : HitType} {f : Fault} (hkind : messageKind message = some (.hit type))
      (hid : parseMessageId (splitFields message) = .error f) (hf : f ≠ .missingField)
  /-- A hit for this peer with an id that is not in `m_queries`. -/
  | timedOut {type : HitType} {id : SMessageID} (hkind : messageKind message = some (.hit type))
      (hid : parseMessageId (splitFields message) = .ok id) (hme : id.peerId = me)
      (hcached : t.isQueryCached id = false)
  /-- A hit for another peer with a TTL of at most 1, but not the one that wraps around. -/
  | lastHop {type : HitType} {id : SMessageID} {text : Str} {timeToLive : Int}
      (hkind : messageKind message = some (.hit type))
      (hid : parseMessageId (splitFields message) = .ok id) (hme : id.peerId ≠ me)
      (h4 : (splitFields message)[4]? = some text) (hstoi : stoi text = .ok timeToLive)
      (hmin : timeToLive ≠ -2 ^ 31) (hle : timeToLive ≤ 1)

/-! ## Dropped -/

theorem Untouched.queryHitResult (h : Untouched t s) :
    s.tables.queryHitResult = t.queryHitResult := by
  rw [← h.tables]

theorem Untouched.queries (h : Untouched t s) : s.tables.queries = t.queries := by
  rw [← h.tables]

theorem Dropped.congr (h : Dropped me t message) (hqueries : t'.queries = t.queries) :
    Dropped me t' message := by
  have hsame : ∀ id, t'.isQueryCached id = t.isQueryCached id := by
    intro id
    rw [Tables.isQueryCached, Tables.isQueryCached, hqueries]
  cases h with
  | wrongCommand hkind => exact .wrongCommand hkind
  | cached hkind hid hcached => exact .cached hkind hid ((hsame _).trans hcached)
  | badId hkind hid hf => exact .badId hkind hid hf
  | timedOut hkind hid hme hcached => exact .timedOut hkind hid hme ((hsame _).trans hcached)
  | lastHop hkind hid hme h4 hstoi hmin hle => exact .lastHop hkind hid hme h4 hstoi hmin hle

theorem handleMessage_of_dropped (h : Dropped me t message) :
    handleMessage me now t message = .ok { tables := t } := by
  cases h with
  | wrongCommand hkind => exact handleMessage_of_none me now t hkind
  | cached hkind hid hcached =>
      rw [handleMessage_of_flood me now t hkind]
      simp only [receiveQuery, hid, bind, Except.bind, if_pos hcached]
      rfl
  | @badId type f hkind hid hf =>
      rw [handleMessage_of_hit me now t hkind]
      cases f with
      | missingField => exact absurd rfl hf
      | invalidArgument | outOfRange | assertionFailed =>
          simp only [handleQueryHit, hid]
          rfl
  | timedOut hkind hid hme hcached =>
      rw [handleMessage_of_hit me now t hkind]
      obtain ⟨type, htype⟩ := field_zero_of_id hid
      simp only [handleQueryHit, hid, htype, bind, Except.bind, if_pos hme, hcached]
      rfl
  | lastHop hkind hid hme h4 hstoi hmin hle =>
      rw [handleMessage_of_hit me now t hkind]
      exact handleQueryHit_drop hid hme h4 hstoi
        ((wrapInt_sub_one_le_zero (isInt_of_stoi hstoi)).mpr ⟨hmin, hle⟩)

/-- Nothing comes of a message that is dropped. -/
theorem untouched_of_dropped (h : Dropped me t message)
    (hs : (messageRound net me t message).Reachable s) : Untouched t s := by
  have hinv : (s.todo = [.handle message] ∨ s.todo = []) ∧ Untouched t s := by
    refine hs.invariant (I := fun s => (s.todo = [.handle message] ∨ s.todo = []) ∧
      Untouched t s) ?_ ?_
    · intro s h0
      rw [show s = startRound t message from h0]
      exact ⟨.inl rfl, rfl, rfl, rfl⟩
    · intro s l s' _ hI hstep
      obtain ⟨htodo, hI⟩ := hI
      cases l with
      | unlock =>
          injection hstep with hstep
          rw [← hstep]
          exact ⟨htodo, hI.tables, hI.queued, hI.sent⟩
      | run now =>
          have hqueries := hI.queries
          have hrun : roundStep net me s (.run now) = some s' := hstep
          rw [roundStep] at hrun
          split at hrun
          · rcases htodo with htodo | htodo
            · simp only [htodo, exec, handleMessage_of_dropped (h.congr hqueries), orAbort,
                Option.map_some] at hrun
              injection hrun with hrun
              rw [← hrun]
              refine ⟨.inr rfl, hI.tables, ?_, ?_⟩
              · show s.queued ++ [] = []
                rw [List.append_nil, hI.queued]
              · show s.sent ++ [] = []
                rw [List.append_nil, hI.sent]
            · rw [htodo] at hrun
              cases hrun
          · cases hrun
  exact hinv.2

/-! ## Not dropped -/

/-- The sections of a round run one after the other. -/
theorem reachable_run (now : Int) {sec : Section} {rest : List Section} {o : Outcome}
    (hs : (messageRound net me t message).Reachable s) (hfault : s.tables.fault = none)
    (htodo : s.todo = sec :: rest) (ho : exec net me now s.tables sec = some o) :
    (messageRound net me t message).Reachable (s.commit rest o) := by
  refine .step (.run now) hs ?_
  show roundStep net me s (.run now) = _
  rw [roundStep, if_pos hfault]
  simp only [htodo, ho, Option.map_some]

/-- The mutex gets free. -/
theorem reachable_unlock (hs : (messageRound net me t message).Reachable s) :
    (messageRound net me t message).Reachable
      { s with tables := { s.tables with sendBufferMutex := false } } :=
  .step .unlock hs rfl

theorem Untouched.fault (h : Untouched t s) : s.tables.fault = t.fault := by
  rw [← h.tables]

/-- The handler in its first section. -/
theorem reachable_handle (net : Setup) {r : Except Fault Outcome} (ht : t.fault = none)
    (h : handleMessage me 0 t message = r) :
    (messageRound net me t message).Reachable ((startRound t message).commit [] (orAbort t r)) := by
  rw [← h]
  exact reachable_run 0 (.init rfl) ht rfl rfl

/-- An exception is not without effect. -/
theorem error_touches {f : Fault} (ht : t.fault = none)
    (h : handleMessage me 0 t message = .error f) :
    ∃ s, (messageRound net me t message).Reachable s ∧ ¬Untouched t s := by
  have hs := reachable_handle net ht h
  refine ⟨_, hs, fun hu => ?_⟩
  have hfault := hu.fault
  rw [ht] at hfault
  cases hfault

/-- A flooded message with a new id is cached. -/
theorem flood_touches {handler : Handler} (ht : t.fault = none)
    (hkind : messageKind message = some (.flood handler)) (hdrop : ¬Dropped me t message) :
    ∃ s, (messageRound net me t message).Reachable s ∧ ¬Untouched t s := by
  have hdispatch := handleMessage_of_flood me 0 t hkind
  cases ho : receiveQuery handler t message with
  | error f => exact error_touches ht (hdispatch.trans ho)
  | ok o =>
      obtain ⟨id, hid, hcases⟩ := receiveQuery_cases ho
      rcases hcases with ⟨hcached, -⟩ | ⟨hcached, upstream, rfl⟩
      · exact absurd (.cached hkind hid hcached) hdrop
      · have hhandled := reachable_handle net ht (hdispatch.trans ho)
        have hcachedNow := reachable_run 0 hhandled ht rfl rfl
        refine ⟨_, hcachedNow, fun hu => ?_⟩
        have hnew := isQueryCached_eq_false.mp hcached
        have hqueries : (t.cacheQuery id upstream).queries = t.queries := hu.queries
        rw [cacheQuery_queries hnew] at hqueries
        rw [← hqueries, UnorderedMap.find?_insert_self] at hnew
        cases hnew

/-- A result more is another hit list. -/
theorem recordQueryHit_ne (t : Tables) (type : Str) (id : SMessageID) (result : SQueryResult) :
    (recordQueryHit t type id result).tables.queryHitResult ≠ t.queryHitResult := by
  intro h
  have hfind := congrArg (fun results => (results.find? id).getD []) h
  rw [recordQueryHit, UnorderedMap.find?_insert_self, Option.getD_some] at hfind
  have hlength := congrArg List.length hfind
  rw [List.length_append, List.length_singleton] at hlength
  omega

/-- With the mutex free, `RelayQueryHit` sends the hit or fails its assertion. -/
theorem relayQueryHit_acts (net : Setup) (me : PeerID) (t : Tables) (message : Str)
    (id : SMessageID) (hmutex : t.sendBufferMutex = false) :
    ∃ o, relayQueryHit net me t message id = some o ∧ (o.sent ≠ [] ∨ o.tables.fault ≠ none) := by
  unfold relayQueryHit
  rw [hmutex, if_neg Bool.false_ne_true]
  dsimp only
  split
  · exact ⟨_, rfl, .inl (List.cons_ne_nil _ _)⟩
  · exact ⟨_, rfl, .inr (Option.some_ne_none _)⟩

/-- A hit is recorded or relayed, unless an exception or the assertion stops it. -/
theorem hit_touches {type : HitType} (ht : t.fault = none)
    (hkind : messageKind message = some (.hit type)) (hdrop : ¬Dropped me t message) :
    ∃ s, (messageRound net me t message).Reachable s ∧ ¬Untouched t s := by
  have hdispatch := handleMessage_of_hit me 0 t hkind
  cases ho : handleQueryHit me 0 t message with
  | error f => exact error_touches ht (hdispatch.trans ho)
  | ok o =>
      have hhandled := reachable_handle net ht (hdispatch.trans ho)
      rcases handleQueryHit_cases ho with ⟨f, hid, hf, -⟩ | ⟨id, hid, hcases⟩
      · exact absurd (.badId hkind hid hf) hdrop
      · rcases hcases with ⟨hme, hcases⟩ | ⟨hme, text, timeToLive, h4, hstoi, hcases⟩
        · rcases hcases with ⟨hcached, -⟩ | ⟨type, result, rfl⟩
          · exact absurd (.timedOut hkind hid hme hcached) hdrop
          · have hrecorded := reachable_run 0 hhandled ht rfl rfl
            refine ⟨_, hrecorded, fun hu => ?_⟩
            exact recordQueryHit_ne t type id result hu.queryHitResult
        · rcases hcases with ⟨hle, -⟩ | rfl
          · obtain ⟨hmin, hle⟩ := (wrapInt_sub_one_le_zero (isInt_of_stoi hstoi)).mp hle
            exact absurd (.lastHop hkind hid hme h4 hstoi hmin hle) hdrop
          · have hunlocked := reachable_unlock hhandled
            obtain ⟨o, hrelay, hacts⟩ := relayQueryHit_acts net me
              { t with sendBufferMutex := false } (joinFields (splitFields message)) id rfl
            have hrelayed := reachable_run 0 hunlocked ht rfl hrelay
            refine ⟨_, hrelayed, fun hu => ?_⟩
            rcases hacts with hsent | hfault
            · exact hsent hu.sent
            · exact hfault (hu.fault.trans ht)

/-- What is not dropped has an effect. -/
theorem touches_of_not_dropped (net : Setup) (ht : t.fault = none) (h : ¬Dropped me t message) :
    ∃ s, (messageRound net me t message).Reachable s ∧ ¬Untouched t s := by
  cases hkind : messageKind message with
  | none => exact absurd (.wrongCommand hkind) h
  | some kind =>
      cases kind with
      | flood handler => exact flood_touches ht hkind h
      | hit type => exact hit_touches ht hkind h

/-! ## Well formed -/

/-- A round that only has sound sections before it, and no exception behind. -/
structure Round.Sound (s : Round) : Prop where
  fault : ∀ f, s.tables.fault = some f → f = .assertionFailed
  todo : ∀ sec ∈ s.todo, sec.Sound

/-- The round of a well-formed message stays sound. -/
theorem sound_of_wellFormed (ht : t.fault = none) (h : WellFormed message)
    (hs : (messageRound net me t message).Reachable s) : s.Sound := by
  refine hs.invariant ?_ ?_
  · intro s h0
    rw [show s = startRound t message from h0]
    refine ⟨fun f hf => ?_, List.forall_mem_singleton.mpr h⟩
    rw [startRound, ht] at hf
    cases hf
  · intro s l s' _ hI hstep
    cases l with
    | unlock =>
        injection hstep with hstep
        rw [← hstep]
        exact ⟨hI.fault, hI.todo⟩
    | run now =>
        have hrun : roundStep net me s (.run now) = some s' := hstep
        rw [roundStep] at hrun
        split at hrun
        · next hfault =>
            split at hrun
            · cases hrun
            · next sec rest htodo =>
                obtain ⟨o, ho, rfl⟩ := Option.map_eq_some_iff.mp hrun
                have hall := hI.todo
                rw [htodo] at hall
                obtain ⟨hsec, hrest⟩ := List.forall_mem_cons.mp hall
                have hsound := exec_sound hfault hsec ho
                exact ⟨hsound.fault, List.forall_mem_append.mpr ⟨hsound.next, hrest⟩⟩
        · cases hrun

/-- Of the messages, those are handled safely that are well formed, or dropped at once. -/
theorem handles_safely_iff (ht : t.fault = none) :
    HandlesSafely net me t message ↔ WellFormed message ∨ Dropped me t message := by
  constructor
  · intro h
    by_cases hwell : WellFormed message
    · exact .inl hwell
    · refine .inr (by_contra fun hdrop => ?_)
      obtain ⟨s, hs, htouched⟩ := touches_of_not_dropped net ht hdrop
      exact htouched (h.no_effect hwell s hs)
  · intro h
    rcases h with hwell | hdrop
    · exact ⟨fun s hs => (sound_of_wellFormed ht hwell hs).fault, fun hmal => absurd hwell hmal⟩
    · refine ⟨fun s hs f hf => ?_, fun _ s hs => untouched_of_dropped hdrop hs⟩
      rw [(untouched_of_dropped hdrop hs).fault, ht] at hf
      cases hf

/-- A query of peer 1, as it creates it. -/
def freshQuery : Query := ⟨⟨1, 0, 0⟩, 5, 1, .query theFile.1⟩

theorem freshQuery_valid : (Message.query freshQuery).Valid :=
  ⟨⟨by decide, by decide, by decide⟩, by decide, by decide, theFile.2⟩

theorem handles_safely_iff_query :
    HandlesSafely lineOfThree 0 (initialTables lineOfThree 0) (Message.query freshQuery).text :=
  (handles_safely_iff rfl).mpr (.inl (wellFormed_text freshQuery_valid))

/-- The same query, cut off before the filename. -/
def cutQueryText : Str := "peer_query\n1\n0\n0\n5\n1".toList

/-- It is cached; then the handler reads the field that is missing. -/
theorem cutQueryText_not_safe :
    ¬HandlesSafely lineOfThree 0 (initialTables lineOfThree 0) cutQueryText := by
  intro h
  have hhandle : handleMessage 0 0 (initialTables lineOfThree 0) cutQueryText =
      .ok { tables := initialTables lineOfThree 0,
            next := [.cacheQuery .query cutQueryText ⟨1, 0, 0⟩ 1] } := rfl
  have hhandled := reachable_handle lineOfThree rfl hhandle
  have hcached := reachable_run 0 hhandled rfl rfl rfl
  have hacted := reachable_run 0 hcached rfl rfl rfl
  have hfault := h.no_exception _ hacted .missingField rfl
  cases hfault

end P2PFileSharing
