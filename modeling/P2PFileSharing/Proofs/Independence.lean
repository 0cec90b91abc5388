import P2PFileSharing.Proofs.Locality
import P2PFileSharing.Proofs.MessageRound

/-!
# The round of one message

A message that is handled to the end leaves the entries of every other id as they are, and
what it makes of the entries of its own id depends on these alone. If it is well-formed and
the peer its id came from is connected, it can be handled to the end.
-/

namespace P2PFileSharing

variable {net : Setup} {me : PeerID} {now : Int} {t t' : Tables} {message : Str}
  {id : SMessageID} {s s' : Round}

/-- A section reads the clock at this time; the mutex may get free at any. -/
def RoundLabel.At (now : Int) : RoundLabel → Prop
  | .run now' => now' = now
  | .unlock => True

/-- The round of a message whose handler reads this time. -/
def timedRound (net : Setup) (me : PeerID) (t : Tables) (message : Str) (now : Int) :
    System Round RoundLabel :=
  (messageRound net me t message).restrict fun _ l => l.At now

/-- The message was handled to the end. -/
structure Handles (net : Setup) (me : PeerID) (t : Tables) (message : Str) (now : Int)
    (s : Round) : Prop where
  reachable : (timedRound net me t message now).Reachable s
  done : s.todo = []

/-- Where a hit for the id of the message goes is a connected peer: for a hit that is not for
this peer the entry of `m_queries`, for a query that has none yet the peer it came from. -/
def UpstreamValid (net : Setup) (me : PeerID) (t : Tables) (message : Str) (id : SMessageID) :
    MessageKind → Prop
  | .flood _ =>
      t.queries.find? id = none →
        ∃ text upstream, field (splitFields message) 5 = .ok text ∧ stoi text = .ok upstream ∧
          upstream ∈ net.peerIdToSockfd me
  | .hit _ =>
      id.peerId ≠ me →
        ∃ upstream, t.queries.find? id = some upstream ∧ upstream ∈ net.peerIdToSockfd me

/-- A well-formed query, query hit or inv_query hit with this id, and its upstream peer. -/
structure CanHandle (net : Setup) (me : PeerID) (t : Tables) (message : Str) (id : SMessageID)
    (kind : MessageKind) : Prop where
  command : messageKind message = some kind
  keyed : kind.Keyed
  fits : kind.Fits (splitFields message)
  parsed : parseMessageId (splitFields message) = .ok id
  upstream : UpstreamValid net me t message id kind

/-! ## The round among the entries of one id -/

/-- The members among the entries of the id, with the requests that this round enqueued. -/
def SeenAt (t : Tables) (id : SMessageID) (s v : Round) : Prop :=
  (∀ sec ∈ s.todo, sec.About id) ∧
    ∃ requests, s.tables.requestQueue = t.requestQueue ++ requests ∧
      v = { s with tables := s.tables.only id requests }

theorem only_idem (t : Tables) (id : SMessageID) (queue queue' : List SClientRequest) :
    (t.only id queue).only id queue' = t.only id queue' := by
  simp only [Tables.only, UnorderedMap.only_only]

/-- What a round does: it runs a section, or the mutex gets free. -/
theorem roundStep_cases {l : RoundLabel} (h : roundStep net me s l = some s') :
    (l = .unlock ∧ s' = { s with tables := { s.tables with sendBufferMutex := false } }) ∨
      ∃ now sec rest o, l = .run now ∧ s.tables.fault = none ∧ s.todo = sec :: rest ∧
        exec net me now s.tables sec = some o ∧ s' = s.commit rest o := by
  cases l with
  | unlock =>
      injection h with h
      exact .inl ⟨rfl, h.symm⟩
  | run now =>
      rw [roundStep] at h
      split at h
      · next hfault =>
          split at h
          · cases h
          · next sec rest htodo =>
              obtain ⟨o, ho, hs'⟩ := Option.map_eq_some_iff.mp h
              exact .inr ⟨now, sec, rest, o, rfl, hfault, htodo, ho, hs'.symm⟩
      · cases h

theorem roundStep_run {sec : Section} {rest : List Section} {o : Outcome}
    (hfault : s.tables.fault = none) (htodo : s.todo = sec :: rest)
    (ho : exec net me now s.tables sec = some o) :
    roundStep net me s (.run now) = some (s.commit rest o) := by
  rw [roundStep, if_pos hfault]
  simp only [htodo, ho, Option.map_some]

/-- A step of the round is the same step among the entries of the id. -/
theorem seenAt_step {v : Round} {l : RoundLabel} (h : SeenAt t id s v)
    (hstep : roundStep net me s l = some s') :
    ∃ v', roundStep net me v l = some v' ∧ SeenAt t id s' v' := by
  obtain ⟨habout, requests, hqueue, rfl⟩ := h
  rcases roundStep_cases hstep with ⟨rfl, rfl⟩ | ⟨now, sec, rest, o, rfl, hfault, htodo, ho, rfl⟩
  · exact ⟨_, rfl, habout, requests, hqueue, rfl⟩
  · rw [htodo] at habout
    obtain ⟨hsec, hrest⟩ := List.forall_mem_cons.mp habout
    have hstays := staysAt_of_about hsec ho
    obtain ⟨more, hmore, honly⟩ := hstays.only
    refine ⟨_, roundStep_run hfault htodo (honly requests),
      List.forall_mem_append.mpr ⟨hstays.next, hrest⟩, requests ++ more, ?_, rfl⟩
    show o.tables.requestQueue = _
    rw [hmore, hqueue, List.append_assoc]

/-- The entries of the other ids stay. -/
theorem except_step {l : RoundLabel} (habout : ∀ sec ∈ s.todo, sec.About id)
    (hstep : roundStep net me s l = some s') :
    s'.tables.except id = s.tables.except id ∧ ∀ sec ∈ s'.todo, sec.About id := by
  rcases roundStep_cases hstep with ⟨rfl, rfl⟩ | ⟨now, sec, rest, o, rfl, hfault, htodo, ho, rfl⟩
  · exact ⟨rfl, habout⟩
  · rw [htodo] at habout
    obtain ⟨hsec, hrest⟩ := List.forall_mem_cons.mp habout
    have hstays := staysAt_of_about hsec ho
    exact ⟨hstays.except, List.forall_mem_append.mpr ⟨hstays.next, hrest⟩⟩

/-- There is nothing but the entries of the id. -/
def Round.AllAt (id : SMessageID) (s : Round) : Prop :=
  s.tables = s.tables.only id s.tables.requestQueue ∧ ∀ sec ∈ s.todo, sec.About id

theorem allAt_step {l : RoundLabel} (h : s.AllAt id) (hstep : roundStep net me s l = some s') :
    s'.AllAt id := by
  obtain ⟨hall, habout⟩ := h
  refine ⟨?_, (except_step habout hstep).2⟩
  rcases roundStep_cases hstep with ⟨-, rfl⟩ | ⟨now, sec, rest, o, -, -, htodo, ho, rfl⟩
  · exact congrArg (fun t : Tables => { t with sendBufferMutex := false }) hall
  · rw [htodo] at habout
    obtain ⟨more, hmore, honly⟩ := (staysAt_of_about (List.forall_mem_cons.mp habout).1 ho).only
    have ho' := honly s.tables.requestQueue
    rw [← hall, ho, ← hmore] at ho'
    exact congrArg Outcome.tables (Option.some.inj ho')

/-! ## The whole round -/

section Whole

variable {kind : MessageKind}

theorem CanHandle.about (h : CanHandle net me t message id kind) :
    ∀ sec ∈ [Section.handle message], sec.About id :=
  List.forall_mem_singleton.mpr ⟨⟨kind, h.command, h.keyed⟩, h.parsed⟩

theorem Handles.except (h : Handles net me t' message now s)
    (hcan : CanHandle net me t message id kind) : s.tables.except id = t'.except id := by
  refine (h.reachable.invariant (I := fun s => s.tables.except id = t'.except id ∧
    ∀ sec ∈ s.todo, sec.About id) ?_ ?_).1
  · intro s h0
    rw [show s = startRound t' message from h0]
    exact ⟨rfl, hcan.about⟩
  · intro s l s' _ hI hstep
    obtain ⟨hexcept, habout⟩ := except_step hI.2 hstep.2
    exact ⟨hexcept.trans hI.1, habout⟩

/-- The round among the entries of the id is a round of its own. -/
theorem Handles.seenAt (h : Handles net me t' message now s)
    (hcan : CanHandle net me t message id kind) :
    ∃ v, Handles net me (t'.only id []) message now v ∧ SeenAt t' id s v := by
  have hrefine : ∃ v, (timedRound net me (t'.only id []) message now).Reachable v ∧
      SeenAt t' id s v := by
    refine h.reachable.refine ?_ ?_
    · intro s h0
      rw [show s = startRound t' message from h0]
      exact ⟨_, rfl, hcan.about, [], (List.append_nil _).symm, rfl⟩
    · intro s v l s' _ hR hstep
      obtain ⟨v', hv', hR'⟩ := seenAt_step hR hstep.2
      exact ⟨v', ⟨hstep.1, hv'⟩, hR'⟩
  obtain ⟨v, hv, hseen⟩ := hrefine
  have hveq := hseen.2
  obtain ⟨requests, -, hveq⟩ := hveq
  refine ⟨v, ⟨hv, ?_⟩, hseen⟩
  rw [hveq]
  exact h.done

/-- Among the entries of its id, a round can only come to one end. -/
theorem handles_unique {v v' : Round} (hcan : CanHandle net me t message id kind)
    (h : Handles net me (t'.only id []) message now v)
    (h' : Handles net me (t'.only id []) message now v') : v = v' := by
  have hstuck : ∀ {v : Round}, v.todo = [] → roundStep net me v (.run now) = none := by
    intro v hv
    rw [roundStep, hv]
    exact ite_self none
  refine h.reachable.eq_of_stuck (fun v => roundStep net me v (.run now)) (fun _ h0 => h0)
    ?_ h'.reachable (hstuck h.done) (hstuck h'.done)
  intro s l s' hs hstep
  have hall : s.AllAt id := by
    refine hs.invariant ?_ ?_
    · intro s h0
      rw [show s = startRound (t'.only id []) message from h0]
      exact ⟨(only_idem t' id [] []).symm, hcan.about⟩
    · intro s l s' _ hI hstep
      exact allAt_step hI hstep.2
  obtain ⟨hat, hstep⟩ := hstep
  cases l with
  | run now' =>
      obtain rfl := hat
      exact .inr hstep
  | unlock =>
      injection hstep with hstep
      have hmutex : s.tables.sendBufferMutex = false := by rw [hall.1, Tables.only]
      refine .inl ?_
      rw [← hstep, ← hmutex]

/-- Two rounds of a message that find the same entries of its id do the same. -/
theorem handles_congr {t₀ : Tables} (hcan : CanHandle net me t₀ message id kind)
    (honly : t.only id [] = t'.only id []) (h : Handles net me t message now s)
    (h' : Handles net me t' message now s') :
    s.tables.only id [] = s'.tables.only id [] ∧ s.queued = s'.queued ∧ s.sent = s'.sent ∧
      ∃ requests, s.tables.requestQueue = t.requestQueue ++ requests ∧
        s'.tables.requestQueue = t'.requestQueue ++ requests := by
  obtain ⟨v, hv, -, requests, hqueue, hveq⟩ := h.seenAt hcan
  obtain ⟨v', hv', -, requests', hqueue', hveq'⟩ := h'.seenAt hcan
  rw [honly] at hv
  have heq := handles_unique hcan hv hv'
  rw [hveq, hveq'] at heq
  injection heq with htables _ hqueued hsent
  have hrequests : requests = requests' := congrArg Tables.requestQueue htables
  refine ⟨?_, hqueued, hsent, requests, hqueue, ?_⟩
  · exact congrArg (fun t : Tables => { t with requestQueue := [] }) htables
  · rw [hrequests]
    exact hqueue'

/-- What was left alone of another id. -/
theorem only_of_except {id' : SMessageID} (hne : (id == id') = false)
    (hexcept : t'.except id = t.except id) (hfault : t'.fault = t.fault) :
    t'.only id' [] = t.only id' [] := by
  have honly : ∀ t : Tables,
      t.only id' [] = { (t.except id).only id' [] with fault := t.fault } := by
    intro t
    simp only [Tables.only, Tables.except, UnorderedMap.only_erase_of_ne _ hne]
  rw [honly t', honly t, hexcept, hfault]

theorem except_comm (t : Tables) (id id' : SMessageID) :
    (t.except id).except id' = (t.except id').except id := by
  simp only [Tables.except, UnorderedMap.erase_comm _ id]

/-! ## The round can be run to its end -/

theorem timedRound_run {sec : Section} {rest : List Section} {o : Outcome}
    (hs : (timedRound net me t message now).Reachable s) (hfault : s.tables.fault = none)
    (htodo : s.todo = sec :: rest) (ho : exec net me now s.tables sec = some o) :
    (timedRound net me t message now).Reachable (s.commit rest o) :=
  .step (.run now) hs ⟨rfl, roundStep_run hfault htodo ho⟩

/-- The message is handled to the end, and the process is still there. -/
def Finishes (net : Setup) (me : PeerID) (t : Tables) (message : Str) (now : Int) : Prop :=
  ∃ s, Handles net me t message now s ∧ s.tables.fault = none

/-- A section that is the last one. -/
theorem finishes_of_last {sec : Section} {o : Outcome}
    (hs : (timedRound net me t message now).Reachable s) (hfault : s.tables.fault = none)
    (htodo : s.todo = [sec]) (ho : exec net me now s.tables sec = some o) (hnext : o.next = [])
    (halive : o.tables.fault = none) : Finishes net me t message now := by
  refine ⟨s.commit [] o, ⟨timedRound_run hs hfault htodo ho, ?_⟩, halive⟩
  rw [Round.commit, hnext, List.append_nil]

theorem finishes_of_relayQueryHit {text : Str} {upstream : PeerID}
    (hs : (timedRound net me t message now).Reachable s) (hfault : s.tables.fault = none)
    (htodo : s.todo = [.relayQueryHit text id]) (hmutex : s.tables.sendBufferMutex = false)
    (hfind : s.tables.queries.find? id = some upstream)
    (hpeer : upstream ∈ net.peerIdToSockfd me) : Finishes net me t message now := by
  have hindex : s.tables.queries.index id 0 = (upstream, s.tables.queries) := by
    rw [UnorderedMap.index, hfind]
  have ho : exec net me now s.tables (.relayQueryHit text id) =
      some { tables := s.tables, sent := [(upstream, text)] } := by
    show relayQueryHit net me s.tables text id = _
    rw [relayQueryHit, if_neg (by rw [hmutex]; exact Bool.false_ne_true), hindex]
    exact if_pos hpeer
  exact finishes_of_last hs hfault htodo ho rfl hfault

/-- The end of `HandleQuery`, when it has not got the file. -/
theorem relayQuery_keeps {upstream : PeerID}
    (h : (MessageKind.flood .query).Fits (splitFields message)) :
    ∃ o, relayQuery me .query t message id upstream = .ok o ∧ o.tables = t ∧ o.next = [] := by
  obtain ⟨text, h4, timeToLive, httl⟩ := accepts_field (i := 4) h rfl
  simp only [relayQuery, reduceCtorEq, if_false, h4, httl, bind, Except.bind, pure, Except.pure]
  split
  · exact ⟨_, rfl, rfl, rfl⟩
  · exact ⟨_, rfl, rfl, rfl⟩

/-- `HandleQuery` after `CacheQuery`. -/
theorem finishes_of_act {upstream : PeerID}
    (hfits : (MessageKind.flood .query).Fits (splitFields message))
    (hs : (timedRound net me t message now).Reachable s) (hfault : s.tables.fault = none)
    (htodo : s.todo = [.act .query message id upstream])
    (hmutex : s.tables.sendBufferMutex = false)
    (hfind : s.tables.queries.find? id = some upstream)
    (hpeer : upstream ∈ net.peerIdToSockfd me) : Finishes net me t message now := by
  obtain ⟨filename, h6, -⟩ := accepts_field (i := 6) hfits rfl
  have ho : exec net me now s.tables (.act .query message id upstream) =
      some (orAbort s.tables (actOnQuery net me s.tables message id upstream)) := rfl
  simp only [actOnQuery, h6, bind, Except.bind] at ho
  split at ho
  · exact finishes_of_relayQueryHit (timedRound_run hs hfault htodo ho) hfault rfl hmutex hfind
      hpeer
  · have hacted := timedRound_run hs hfault htodo ho
    obtain ⟨o, hrelay, htables, hnext⟩ : ∃ o, relayQuery me .query s.tables message id upstream =
        .ok o ∧ o.tables = s.tables ∧ o.next = [] := relayQuery_keeps hfits
    refine finishes_of_last hacted hfault rfl (o := o) ?_ hnext ?_
    · show some (orAbort s.tables (relayQuery me .query s.tables message id upstream)) = _
      rw [hrelay]
      rfl
    · rw [htables]
      exact hfault

/-- A query, before its handler starts. -/
theorem finishes_query (hfits : (MessageKind.flood .query).Fits (splitFields message))
    (hup : UpstreamValid net me s.tables message id (.flood .query))
    (hid : parseMessageId (splitFields message) = .ok id)
    (hcommand : messageKind message = some (.flood .query)) (hfault : s.tables.fault = none)
    (hs : (timedRound net me t message now).Reachable s) (htodo : s.todo = [.handle message])
    (hmutex : s.tables.sendBufferMutex = false) : Finishes net me t message now := by
  obtain ⟨text, h5, upstream, hstoi⟩ := accepts_field (i := 5) hfits rfl
  have hhandle : exec net me now s.tables (.handle message) =
      some (orAbort s.tables (receiveQuery .query s.tables message)) := by
    rw [exec, handleMessage_of_flood me now s.tables hcommand]
  simp only [receiveQuery, hid, h5, hstoi, bind, Except.bind] at hhandle
  by_cases hcached : s.tables.isQueryCached id = true
  · rw [if_pos hcached] at hhandle
    exact finishes_of_last hs hfault htodo hhandle rfl hfault
  · rw [if_neg hcached] at hhandle
    have hnone := isQueryCached_eq_false.mp (Bool.eq_false_iff.mpr hcached)
    have hpeer : upstream ∈ net.peerIdToSockfd me := by
      obtain ⟨text', upstream', h5', hstoi', hpeer⟩ := hup hnone
      rw [h5] at h5'
      injection h5' with h5'
      rw [← h5', hstoi] at hstoi'
      injection hstoi' with hstoi'
      rwa [hstoi']
    have hhandled := timedRound_run hs hfault htodo hhandle
    have hcache := timedRound_run hhandled hfault rfl rfl
    refine finishes_of_act hfits hcache (cacheQuery_fault hfault) rfl ?_ ?_ hpeer
    · exact (cacheQuery_other s.tables id upstream).2.1.trans hmutex
    · show (s.tables.cacheQuery id upstream).queries.find? id = some upstream
      rw [cacheQuery_queries hnone, UnorderedMap.find?_insert_self]

/-- `HandleWaitQueryHit`. -/
theorem finishes_of_take {type : Str} (hs : (timedRound net me t message now).Reachable s)
    (hfault : s.tables.fault = none) (htodo : s.todo = [.takeWaitQueryHit type id]) :
    Finishes net me t message now := by
  have htake : exec net me now s.tables (.takeWaitQueryHit type id) =
      some (takeWaitQueryHit s.tables type id) := rfl
  rw [takeWaitQueryHit] at htake
  split at htake
  · exact finishes_of_last hs hfault htodo htake rfl hfault
  · have htaken := timedRound_run hs hfault htodo htake
    have hstart : ∀ t filename, (startTransfers net me t type id filename).next = [] ∧
        (startTransfers net me t type id filename).tables.fault = t.fault := by
      intro t filename
      rw [startTransfers]
      split
      · exact ⟨rfl, rfl⟩
      · exact ⟨rfl, rfl⟩
    exact finishes_of_last htaken hfault rfl rfl (hstart _ _).1 ((hstart _ _).2.trans hfault)

/-- A hit, before its handler starts. -/
theorem finishes_hit {type : HitType} (hfits : (MessageKind.hit type).Fits (splitFields message))
    (hup : UpstreamValid net me s.tables message id (.hit type))
    (hid : parseMessageId (splitFields message) = .ok id)
    (hcommand : messageKind message = some (.hit type)) (hfault : s.tables.fault = none)
    (hs : (timedRound net me t message now).Reachable s) (htodo : s.todo = [.handle message])
    (hmutex : s.tables.sendBufferMutex = false) : Finishes net me t message now := by
  obtain ⟨o, ho, -⟩ : ∃ o, handleQueryHit me now s.tables message = .ok o ∧ o.Sound :=
    handleQueryHit_sound hfault hfits
  have hhandle : exec net me now s.tables (.handle message) = some o := by
    rw [exec, handleMessage_of_hit me now s.tables hcommand, ho]
    rfl
  have hhandled := timedRound_run hs hfault htodo hhandle
  rcases handleQueryHit_cases ho with ⟨f, hid', -⟩ | ⟨id', hid', hcases⟩
  · rw [hid] at hid'
    cases hid'
  · rw [hid] at hid'
    injection hid' with hid'
    rw [← hid'] at hcases
    rcases hcases with ⟨-, ⟨-, rfl⟩ | ⟨type', result, rfl⟩⟩ |
      ⟨hme, text, timeToLive, -, -, ⟨-, rfl⟩ | rfl⟩
    · exact finishes_of_last hs hfault htodo hhandle rfl hfault
    · exact finishes_of_take (timedRound_run hhandled hfault rfl rfl) hfault rfl
    · exact finishes_of_last hs hfault htodo hhandle rfl hfault
    · obtain ⟨upstream, hfind, hpeer⟩ := hup hme
      exact finishes_of_relayQueryHit hhandled hfault rfl hmutex hfind hpeer

/-- Such a message can be handled. -/
theorem CanHandle.finishes (ht : t.fault = none) (h : CanHandle net me t message id kind) :
    Finishes net me t message now := by
  -- the mutex may be with the broadcast thread at first
  have hstart : (timedRound net me t message now).Reachable
      { startRound t message with tables := { t with sendBufferMutex := false } } :=
    .step .unlock (.init rfl) ⟨trivial, rfl⟩
  have hkeyed := h.keyed
  cases kind with
  | flood handler =>
      cases handler with
      | query => exact finishes_query h.fits h.upstream h.parsed h.command ht hstart rfl rfl
      | invQuery | conTestQuery | conTestObtain => exact absurd hkeyed not_false
  | hit type => exact finishes_hit h.fits h.upstream h.parsed h.command ht hstart rfl rfl

/-- However it is handled, the process is still there. -/
theorem Handles.alive (h : Handles net me t message now s)
    (hcan : CanHandle net me t message id kind) (ht : t.fault = none) :
    s.tables.fault = none := by
  obtain ⟨s', h', halive⟩ : Finishes net me t message now := hcan.finishes ht
  have honly := (handles_congr hcan rfl h h').1
  exact (congrArg Tables.fault honly).trans halive

end Whole

end P2PFileSharing
