import P2PFileSharing.Proofs.Refine
import P2PFileSharing.Proofs.Race

/-!
# Reading a network through the bag it refines

The guarantees speak about texts in the network's queues and history; the
invariants about values in a bag. A valid message's text is recognised as a copy
exactly when the value is one, what waits in the network are the tasks of the
bag, and the two histories match event by event.
-/

namespace P2PFileSharing

/-! ## Texts -/

theorem carries_query {x : Query} (hv : x.Valid) (types : List Str) (id : SMessageID) :
    carries types id x.text = (types.contains x.request.type && (x.id == id)) := by
  have hid : parseMessageId x.fields = .ok x.id := parseMessageId_fields hv.1 _ _ _ _
  have h0 : x.fields[0]? = some x.request.type := rfl
  rw [carries, splitFields_query hv, hid, h0]

theorem carries_hit {h : Hit} (hv : h.Valid) (types : List Str) (id : SMessageID) :
    carries types id h.text = (types.contains h.kind.type && (h.id == id)) := by
  have hid : parseMessageId h.fields = .ok h.id := parseMessageId_fields hv.1 _ _ _ _
  have h0 : h.fields[0]? = some h.kind.type := rfl
  rw [carries, splitFields_hit hv, hid, h0]

theorem isQueryOf_query {x : Query} (hv : x.Valid) (id : SMessageID) :
    isQueryOf id x.text = (x.id == id) := by
  rw [isQueryOf, carries_query hv]
  cases x.request <;> rfl

theorem isQueryOf_hit {h : Hit} (hv : h.Valid) (id : SMessageID) :
    isQueryOf id h.text = false := by
  rw [isQueryOf, carries_hit hv]
  cases h.kind <;> rfl

theorem isHitOf_query {x : Query} (hv : x.Valid) (id : SMessageID) (q : PeerID) :
    isHitOf id q x.text = false := by
  rw [isHitOf, carries_query hv]
  cases x.request <;> rfl

theorem intToString_injective {m n : Int} (hm : IsInt m) (hn : IsInt n)
    (h : intToString m = intToString n) : m = n := by
  have hstoi := stoi_intToString hm
  rw [h, stoi_intToString hn] at hstoi
  injection hstoi with hstoi
  exact hstoi.symm

theorem isHitOf_hit {h : Hit} (hv : h.Valid) (id : SMessageID) {q : PeerID} (hq : IsInt q) :
    isHitOf id q h.text = ((h.id == id) && decide (h.origin = q)) := by
  have h5 : h.fields[5]? = some (intToString h.origin) := rfl
  have horigin : (some (intToString h.origin) = some (intToString q)) = (h.origin = q) := by
    rw [Option.some.injEq]
    exact propext ⟨intToString_injective hv.2.2.1 hq, fun heq => by rw [heq]⟩
  rw [isHitOf, carries_hit hv, splitFields_hit hv, h5]
  simp only [horigin]
  cases h.kind <;> rfl

def Task.query? : Task → Option Query
  | .cacheOwn x _ | .broadcastOwn x _ | .handleQuery x | .cacheQuery x | .act x | .relay x
  | .lockSendBuffer x _ | .sendTo _ x => some x
  | _ => none

theorem isQueryOf_code {task : Task} (hv : task.Valid) (id : SMessageID) :
    task.code.isQueryOf id = task.query?.any fun x => x.id == id := by
  cases task with
  | cacheOwn | broadcastOwn | handleQuery | cacheQuery | act | relay | lockSendBuffer | sendTo =>
      exact isQueryOf_query hv id
  | handleHit h | relayHit h => exact isQueryOf_hit hv id
  | _ => rfl

/-! ## Program points -/

theorem code_handle {task : Task} {m : Str} (h : task.code = .handle m) :
    (∃ x, task = .handleQuery x ∧ x.text = m) ∨ ∃ x, task = .handleHit x ∧ x.text = m := by
  cases task with
  | handleQuery x =>
      injection h with h
      exact .inl ⟨x, rfl, h⟩
  | handleHit x =>
      injection h with h
      exact .inr ⟨x, rfl, h⟩
  | _ => cases h

theorem code_lockSendBuffer {task : Task} {m : Str} {exclude : PeerID}
    (h : task.code = .lockSendBuffer m exclude) :
    ∃ x, task = .lockSendBuffer x exclude ∧ x.text = m := by
  cases task with
  | lockSendBuffer x e =>
      injection h with hm he
      exact ⟨x, by rw [he], hm⟩
  | _ => cases h

theorem code_sendTo {task : Task} {m : Str} {q : PeerID} (h : task.code = .sendTo q m) :
    ∃ x, task = .sendTo q x ∧ x.text = m := by
  cases task with
  | sendTo q' x =>
      injection h with hq hm
      exact ⟨x, by rw [hq], hm⟩
  | _ => cases h

section Bridge

variable {net : Setup} {s : Network} {a : Flood}

theorem Refines.upstream (h : Refines s a) (p : PeerID) (id : SMessageID) :
    s.upstream p id = (a.tables p).queries.find? id := by
  rw [Network.upstream, h.tables p]

/-- What waits in the network is a task of the bag. -/
theorem Refines.exists_task (h : Refines s a) {pl : Place} {sec : Section}
    (hsec : sec ∈ s.sectionsAt pl) : ∃ task, Work.mk pl task ∈ a.work ∧ task.code = sec := by
  have hmem : sec ∈ sectionsAt a.work pl := by
    rw [h.work pl]
    exact hsec
  obtain ⟨w, hw, hcode⟩ := Multiset.mem_map.mp hmem
  obtain ⟨hw, hpl⟩ := Multiset.mem_filter.mp hw
  refine ⟨w.task, ?_, hcode⟩
  rw [← hpl]
  exact hw

theorem Refines.mem_sectionsAt (h : Refines s a) {w : Work} (hw : w ∈ a.work) :
    w.task.code ∈ s.sectionsAt w.place := by
  have hmem : w.task.code ∈ sectionsAt a.work w.place :=
    Multiset.mem_map_of_mem _ (Multiset.mem_filter.mpr ⟨hw, rfl⟩)
  rw [h.work] at hmem
  exact hmem

theorem Refines.mem_log (h : Refines s a) {p : PeerID} {ev : Event Message}
    (hev : (p, ev) ∈ a.log) : (p, ev.map Message.text) ∈ s.log := by
  rw [h.log]
  exact List.mem_map.mpr ⟨_, hev, rfl⟩

theorem Refines.exists_event (h : Refines s a) {p : PeerID} {ev : Event Str}
    (hev : (p, ev) ∈ s.log) : ∃ ev', (p, ev') ∈ a.log ∧ ev'.map Message.text = ev := by
  rw [h.log] at hev
  obtain ⟨e, he, heq⟩ := List.mem_map.mp hev
  injection heq with hp hev
  refine ⟨e.2, ?_, hev⟩
  rw [← hp]
  exact he

theorem isRemoval_map (ev : Event Message) : (ev.map Message.text).isRemoval = ev.isRemoval := by
  cases ev <;> rfl

theorem Refines.nothingRemoved (h : Refines s a) : s.NothingRemoved ↔ a.NothingRemoved := by
  constructor
  · intro hs e he
    have hkept := hs _ (h.mem_log he)
    rw [isRemoval_map] at hkept
    exact hkept
  · intro ha e he
    obtain ⟨ev, hev, heq⟩ := h.exists_event he
    rw [← heq, isRemoval_map]
    exact ha _ hev

theorem Refines.countP (h : Refines s a) (P : PeerID × Event Str → Bool) :
    s.log.countP P = a.log.countP fun e => P (e.1, e.2.map Message.text) := by
  rw [h.log, List.countP_map]
  rfl

/-- An issued text is the text of an issued message. -/
theorem Refines.issued (h : Refines s a) (ha : (flood net).Reachable a) {o : PeerID}
    {id : SMessageID} {message : Str} (hev : (o, .issued id message) ∈ s.log) :
    ∃ x, a.Issued x ∧ x.id = id ∧ id.peerId = o ∧ message = x.text := by
  obtain ⟨ev, hev, hmap⟩ := h.exists_event hev
  cases ev with
  | issued id' m =>
      injection hmap with hid htext
      obtain ⟨x, rfl, hx, hp, -⟩ := reachable_issue ha _ hev
      refine ⟨x, ?_, hx.trans hid, hid ▸ hp, htext.symm⟩
      show (x.id.peerId, Event.issued x.id (.query x)) ∈ a.log
      rw [hx, hp]
      exact hev
  | _ => cases hmap

/-- Counting events of the two histories by what they say about messages. -/
theorem Refines.count (h : Refines s a) (ha : (flood net).Reachable a)
    {P : PeerID → Event Str → Bool} {Q : PeerID → Event Message → Bool}
    (hPQ : ∀ p ev, ev.Valid → P p (ev.map Message.text) = Q p ev) :
    s.log.countP (fun e => P e.1 e.2) = a.count Q := by
  rw [h.countP, Flood.count]
  refine List.countP_congr fun e he => ?_
  rw [hPQ e.1 e.2 ((reachable_valid ha).log e he)]

theorem peers_isInt {q : PeerID} (h : q ∈ net.peers) : IsInt q := (net.peers_range q h).2

/-- Whether a peer answered is what its one answer counts. -/
theorem hasAnswered_iff {q : PeerID} {id : SMessageID} (h : Refines s a)
    (ha : (flood net).Reachable a) {x : Query} (hx : a.Issued x) (hid : x.id = id) :
    s.HasAnswered q id ↔ 0 < a.count (ofPeer q (Event.isAnswered id)) := by
  rw [Flood.count, List.countP_pos_iff]
  constructor
  · rintro ⟨m, hm⟩
    obtain ⟨ev, hev, hmap⟩ := h.exists_event hm
    refine ⟨_, hev, ?_⟩
    cases ev with
    | answered id' m' =>
        injection hmap with hid' _
        simp [ofPeer, Event.isAnswered, hid']
    | _ => cases hmap
  · rintro ⟨⟨r, ev⟩, hev, hP⟩
    cases ev with
    | answered id' m =>
        simp only [ofPeer, Event.isAnswered, Bool.and_eq_true, decide_eq_true_eq] at hP
        obtain ⟨rfl, hid'⟩ := hP
        obtain ⟨y, x₀, rfl, -, h₀, hid₀, -⟩ := reachable_answer ha _ hev
        have hsame : x₀ = x := issued_unique ha h₀ hx (by rw [hid₀, hid]; exact hid')
        have hid'' : id' = id := by rw [← hid₀, hsame, hid]
        subst hid''
        exact ⟨_, h.mem_log hev⟩
    | _ => simp [ofPeer, Event.isAnswered] at hP

/-! ## The requests of issued texts -/

theorem type_of_text {x y : Query} (h : x.text = y.text) : x.request.type = y.request.type := by
  rw [← command_query x, h, command_query]

theorem args_of_text {x y : Query} (hx : x.Valid) (hy : y.Valid) (h : x.text = y.text) :
    x.request.args = y.request.args := by
  have hfields : x.fields = y.fields := by
    rw [← splitFields_query hx, h, splitFields_query hy]
  exact (List.append_inj hfields rfl).2

theorem invQuery_of_type {r : Request} (h : r.type = peerMsgInvQuery) :
    ∃ f k, r = .invQuery f k := by
  cases r with
  | invQuery f k => exact ⟨f, k, rfl⟩
  | query f => exact absurd (show peerMsgQuery = peerMsgInvQuery from h) (by decide)
  | conTestQuery n => exact absurd (show peerMsgConTestQuery = peerMsgInvQuery from h) (by decide)
  | conTestObtain n v =>
      exact absurd (show peerMsgTestObtain2 = peerMsgInvQuery from h) (by decide)

theorem query_of_type {r : Request} (h : r.type = peerMsgQuery) : ∃ f, r = .query f := by
  cases r with
  | query f => exact ⟨f, rfl⟩
  | invQuery f k => exact absurd (show peerMsgInvQuery = peerMsgQuery from h) (by decide)
  | conTestQuery n => exact absurd (show peerMsgConTestQuery = peerMsgQuery from h) (by decide)
  | conTestObtain n v => exact absurd (show peerMsgTestObtain2 = peerMsgQuery from h) (by decide)

/-- What an issued query or inv_query says, as a text. -/
theorem text_of_request (ha : (flood net).Reachable a) {x : Query} (hx : a.Issued x) {f : Str} :
    (x.request = .query f → x.text = createQueryMessage x.id.peerId x.id f) ∧
      ∀ k, x.request = .invQuery f k → x.text = createInvQueryMessage net x.id.peerId x.id f := by
  obtain ⟨-, -, hcopy, hk⟩ := hx.spec ha
  have htext : x.text = joinFields (headFields x.request.type x.id (ttl - (0 : Nat)) x.id.peerId ++
      x.request.args) := congrArg Query.text hcopy
  constructor
  · intro hreq
    rw [htext, hreq]
    rfl
  · intro k hreq
    obtain ⟨hfactor, hpos⟩ := hk f k hreq
    rw [htext, hreq, hfactor, createInvQueryMessage, net.wrapInt_factor (by omega)]
    rfl

theorem request_of_queryText (ha : (flood net).Reachable a) {x : Query} (hx : a.Issued x)
    {f : {f : Str // ValidName f}} (h : x.text = createQueryMessage x.id.peerId x.id f.1) :
    x.request = .query f.1 := by
  have hv : x.Valid := (reachable_valid ha).log _ hx
  let y : Query := ⟨x.id, ttl, x.id.peerId, .query f.1⟩
  have hy : y.Valid := ⟨hv.1, show IsCount ttl by decide, hv.1.1, f.2⟩
  have htype : x.request.type = peerMsgQuery := type_of_text (y := y) h
  have hargs : x.request.args = [f.1] := args_of_text hv hy h
  obtain ⟨g, hr⟩ := query_of_type htype
  rw [hr] at hargs
  injection hargs with hg
  rw [hr, show g = f.1 from hg]

theorem request_of_invQueryText (ha : (flood net).Reachable a) {x : Query} (hx : a.Issued x)
    {f : {f : Str // ValidName f}}
    (h : x.text = createInvQueryMessage net x.id.peerId x.id f.1) :
    x.request = .invQuery f.1 (net.replicationFactor x.id.peerId - 1) := by
  have hv : x.Valid := (reachable_valid ha).log _ hx
  let y : Query :=
    ⟨x.id, ttl, x.id.peerId, .invQuery f.1 (wrapInt (net.replicationFactor x.id.peerId - 1))⟩
  have htype : x.request.type = peerMsgInvQuery := type_of_text (y := y) h
  obtain ⟨g, k, hr⟩ := invQuery_of_type htype
  obtain ⟨hk, hpos⟩ := (hx.spec ha).2.2.2 g k hr
  have hfactor : wrapInt (net.replicationFactor x.id.peerId - 1) =
      net.replicationFactor x.id.peerId - 1 := net.wrapInt_factor (by omega)
  have hcount : IsCount (wrapInt (net.replicationFactor x.id.peerId - 1)) := by
    have hreq := hv.2.2.2
    rw [hr] at hreq
    rw [hfactor, ← hk]
    exact hreq.2
  have hy : y.Valid := ⟨hv.1, show IsCount ttl by decide, hv.1.1, f.2, hcount⟩
  have hargs := args_of_text hv hy h
  rw [hr] at hargs
  injection hargs with hg
  rw [hr, show g = f.1 from hg, hk]

/-! ## Everything that waits -/

theorem nodup_places (net : Setup) : net.places.Nodup := by
  refine List.nodup_flatMap.mpr ⟨?_, ?_⟩
  · intro p _
    refine List.nodup_append.mpr ⟨by simp, ?_, ?_⟩
    · exact net.peers_nodup.map fun q q' hq => by injection hq
    · intro pl hpl pl' hpl' heq
      obtain ⟨q, -, rfl⟩ := List.mem_map.mp hpl'
      subst heq
      simp at hpl
  · refine net.peers_nodup.imp fun {p q} hne => ?_
    intro pl hp hq
    simp only [List.mem_append, List.mem_cons, List.not_mem_nil, or_false, List.mem_map] at hp hq
    rcases hp with (rfl | rfl | rfl | rfl | rfl | rfl | rfl) | ⟨r, -, rfl⟩ <;>
      simp [hne, hne.symm] at hq

theorem mem_places (ha : (flood net).Reachable a) {w : Work} (hw : w ∈ a.work) :
    w.place ∈ net.places := by
  have hholds := reachable_holds ha w hw
  have hmem : ∀ {p}, p ∈ net.peers → ∀ pl ∈ [Place.thread p .command, .thread p .replicate,
      .thread p .message, .thread p .broadcast, .thread p .mantain, .broadcastQueue p,
      .messagesQueue p] ++ net.peers.map (.socket p), pl ∈ net.places :=
    fun hp pl hpl => List.mem_flatMap.mpr ⟨_, hp, hpl⟩
  generalize w.place = pl at hholds
  cases pl with
  | thread p th => exact hmem hholds.1 _ (by cases th <;> simp)
  | broadcastQueue p => exact hmem hholds.1 _ (by simp)
  | messagesQueue p => exact hmem hholds.1 _ (by simp)
  | socket p q =>
      refine hmem hholds.1 _ (List.mem_append_right _ (List.mem_map_of_mem ?_))
      exact net.topology_peers p q (mem_peerIdToSockfd.mp hholds.2.1).1

theorem sum_countP_sectionsAt {places : List Place} (hnodup : places.Nodup) {work : Multiset Work}
    (hmem : ∀ w ∈ work, w.place ∈ places) (c : Section → Bool) :
    (places.map fun pl => (sectionsAt work pl).countP fun sec => c sec = true).sum =
      work.countP fun w => c w.task.code = true := by
  induction work using Multiset.induction_on with
  | empty => exact List.sum_eq_zero (by simp [sectionsAt])
  | cons w work ih =>
      have hstep : ∀ pl, ((sectionsAt (w ::ₘ work) pl).countP fun sec => c sec = true) =
          ((sectionsAt work pl).countP fun sec => c sec = true) +
            if (decide (w.place = pl) && c w.task.code) = true then 1 else 0 := by
        intro pl
        by_cases hpl : w.place = pl
        · rw [sectionsAt_cons_self hpl, Multiset.countP_cons]
          simp [hpl]
        · rw [sectionsAt_cons_other hpl]
          simp [hpl]
      have hone : places.countP (fun pl => decide (w.place = pl) && c w.task.code) =
          if c w.task.code = true then 1 else 0 := by
        cases c w.task.code with
        | false => simp
        | true =>
            have hcount := List.count_eq_one_of_mem hnodup (hmem w (Multiset.mem_cons_self _ _))
            rw [if_pos rfl, ← hcount, List.count]
            refine List.countP_congr fun pl _ => ?_
            rw [Bool.and_true, decide_eq_true_eq, beq_iff_eq]
            exact eq_comm
      simp only [hstep]
      rw [List.sum_map_add, ih fun w' hw' => hmem w' (Multiset.mem_cons_of_mem hw'),
        sum_map_indicator, hone, Multiset.countP_cons]

/-- **Counting what waits in the network is weighing the bag.** -/
theorem Refines.total (h : Refines s a) (ha : (flood net).Reachable a) {c : Section → Bool}
    {f : PeerID → Task → Nat}
    (hf : ∀ w ∈ a.work, f w.place.owner w.task = if c w.task.code = true then 1 else 0) :
    (s.sections net).countP c = a.total f := by
  have hweigh : ∀ work : Multiset Work,
      (∀ w ∈ work, f w.place.owner w.task = if c w.task.code = true then 1 else 0) →
      weigh f work = work.countP fun w => c w.task.code = true := by
    intro work hv
    induction work using Multiset.induction_on with
    | empty => rfl
    | cons w work ih =>
        rw [weigh_cons, Multiset.countP_cons, ih fun w' hw' => hv w' (Multiset.mem_cons_of_mem hw'),
          hv w (Multiset.mem_cons_self _ _), Nat.add_comm]
  rw [Flood.total, hweigh _ hf,
    ← sum_countP_sectionsAt (nodup_places net) (fun w hw => mem_places ha hw) c,
    Network.sections, List.countP_flatMap]
  congr 1
  refine List.map_congr_left fun pl _ => ?_
  rw [h.work pl, Multiset.coe_countP]
  simp

theorem isQueryOf_message {m : Message} (hv : m.Valid) (id : SMessageID) :
    isQueryOf id m.text = m.isQueryOf id := by
  cases m with
  | query x => exact isQueryOf_query hv id
  | hit h => exact isQueryOf_hit hv id

theorem copySent_text {p q : PeerID} {id : SMessageID} (r : PeerID) (ev : Event Message)
    (hv : ev.Valid) :
    ofPeer p (Event.isSentTo q (isQueryOf id)) r (ev.map Message.text) = copySent p q id r ev := by
  cases ev with
  | sent q' m =>
      simp only [copySent, ofPeer, Event.isSentTo, Event.map]
      rw [isQueryOf_message hv]
  | _ => rfl

/-! ## Marks in the history -/

theorem Refines.resultsIn (h : Refines s a) (p : PeerID) (id : SMessageID) :
    resultsIn s.log p id = P2PFileSharing.resultsIn a.log p id := by
  rw [P2PFileSharing.resultsIn, P2PFileSharing.resultsIn, h.log, List.filterMap_map]
  refine List.filterMap_congr fun e _ => ?_
  obtain ⟨r, ev⟩ := e
  cases ev <;> rfl

theorem Refines.requestsIn (h : Refines s a) (p : PeerID) (id : SMessageID) :
    requestsIn s.log p id = P2PFileSharing.requestsIn a.log p id := by
  rw [P2PFileSharing.requestsIn, P2PFileSharing.requestsIn, h.log, List.flatMap_map]
  congr 1
  funext e
  obtain ⟨r, ev⟩ := e
  cases ev <;> rfl

theorem Refines.requestsOf (h : Refines s a) (p : PeerID) :
    requestsOf s.log p = P2PFileSharing.requestsOf a.log p := by
  rw [P2PFileSharing.requestsOf, P2PFileSharing.requestsOf, h.log, List.flatMap_map]
  congr 1
  funext e
  obtain ⟨r, ev⟩ := e
  cases ev <;> rfl

theorem Refines.firstUpstream (h : Refines s a) (p : PeerID) (id : SMessageID) :
    firstUpstream s.log p id = P2PFileSharing.firstUpstream a.log p id := by
  rw [P2PFileSharing.firstUpstream, P2PFileSharing.firstUpstream, h.log, List.findSome?_map]
  congr 1
  funext e
  obtain ⟨r, ev⟩ := e
  cases ev <;> rfl

theorem Refines.evicted (h : Refines s a) {p : PeerID} {id : SMessageID}
    (hev : Evicted a.log p id) : Evicted s.log p id := by
  obtain ⟨id', hid, hmem⟩ := hev
  exact ⟨id', hid, h.mem_log hmem⟩

theorem ofPeer_map {P : Event Str → Bool} {Q : Event Message → Bool}
    (hPQ : ∀ ev, P (ev.map Message.text) = Q ev) (p r : PeerID) (ev : Event Message) :
    ofPeer p P r (ev.map Message.text) = ofPeer p Q r ev := by
  rw [ofPeer, ofPeer, hPQ]

theorem isWaitSet_map (id : SMessageID) (ev : Event Message) :
    (ev.map Message.text).isWaitSet id = ev.isWaitSet id := by
  cases ev <;> rfl

theorem isLookedUp_map (id : SMessageID) (ev : Event Message) :
    (ev.map Message.text).isLookedUp id = ev.isLookedUp id := by
  cases ev <;> rfl

theorem Refines.lateLookups (h : Refines s a) (p : PeerID) (id : SMessageID) :
    lateLookups s.log p id = P2PFileSharing.lateLookups a.log p id := by
  rw [P2PFileSharing.lateLookups, P2PFileSharing.lateLookups, h.log, List.dropWhile_map,
    List.countP_map]
  simp only [Function.comp_def, ofPeer_map (isWaitSet_map id), ofPeer_map (isLookedUp_map id)]

theorem Refines.earlyLookups (h : Refines s a) (p : PeerID) (id : SMessageID) :
    earlyLookups s.log p id = P2PFileSharing.earlyLookups a.log p id := by
  rw [P2PFileSharing.earlyLookups, P2PFileSharing.earlyLookups, h.log, List.takeWhile_map,
    List.countP_map]
  simp only [Function.comp_def, ofPeer_map (isWaitSet_map id), ofPeer_map (isLookedUp_map id)]

theorem Refines.replicatesIssue (h : Refines s a) {p : PeerID}
    (hc : ReplicatesIssue net s.log p) : ReplicatesIssue net a.log p :=
  fun f hf => hc f (h.mem_log hf)

theorem Refines.entriesKept (h : Refines s a) {p : PeerID} {id : SMessageID}
    (hc : s.EntriesKept p id) : a.HitsKept p id ∧ a.WaitKept p id :=
  ⟨fun id' hid hmem => (hc id' hid).1 (h.mem_log hmem),
    fun id' hid hmem => (hc id' hid).2 (h.mem_log hmem)⟩

theorem Network.NothingRemoved.entriesKept (hc : s.NothingRemoved) (p : PeerID)
    (id : SMessageID) : s.EntriesKept p id :=
  fun _ _ => ⟨fun hmem => absurd (hc _ hmem) (by simp [Event.isRemoval]),
    fun hmem => absurd (hc _ hmem) (by simp [Event.isRemoval])⟩

/-- With every recorded hit dealt with, no lookup and no round is left to do. -/
theorem Refines.hitsHandled (h : Refines s a) (ha : (flood net).Reachable a) {p : PeerID}
    {id : SMessageID} (hc : s.HitsHandled p id) :
    a.total (lookUpWeight p id) = 0 ∧ a.total (roundWeight p id) = 0 := by
  have hpoint : ∀ w ∈ a.work, w.place.owner = p → w.task.ofMessageThread = true →
      (∀ m : Message, w.task ≠ m.task) → w.task.code.isHandleWaitQueryHit id = false := by
    intro w hw howner hof hmsg
    rcases place_of_messageThread ha hw hof with hplace | ⟨m, hm⟩
    · have hmem := h.mem_sectionsAt hw
      rw [hplace, howner] at hmem
      exact hc _ hmem
    · exact absurd hm (hmsg m)
  constructor
  · refine weigh_eq_zero fun w hw => Nat.eq_zero_of_not_pos fun hpos => ?_
    obtain ⟨howner, x, hx⟩ := lookUpWeight_pos hpos
    have hnot := hpoint w hw howner (by rw [hx]; rfl)
      (by rw [hx]; intro m; cases m <;> simp [Message.task])
    rw [hx] at hpos hnot
    exact Bool.eq_false_iff.mp hnot (of_ite_pos hpos).2
  · refine weigh_eq_zero fun w hw => Nat.eq_zero_of_not_pos fun hpos => ?_
    obtain ⟨howner, x, f, hx⟩ := roundWeight_pos hpos
    have hnot := hpoint w hw howner (by rw [hx]; rfl)
      (by rw [hx]; intro m; cases m <;> simp [Message.task])
    rw [hx] at hpos hnot
    exact Bool.eq_false_iff.mp hnot (of_ite_pos hpos).2

end Bridge

end P2PFileSharing
