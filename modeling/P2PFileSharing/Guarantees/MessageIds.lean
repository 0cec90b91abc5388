import P2PFileSharing.Proofs.Bridge
import P2PFileSharing.Proofs.Filling
import P2PFileSharing.Proofs.Issuing

/-!
# Message ids

Three creators take numbers from one counter, and the command thread, the message
thread and the replication thread all call them. Every id they hand back is the one
in the text they return, no two of a run compare equal, and by the time a text can
leave its creator the creator's `m_queries` has the id.

A run ends where a peer's counter would wrap around: its number is how many
messages the peer issued, so a run that issues fewer than 2^64 never gets there.
-/

namespace P2PFileSharing

/-- A thread ran a creator: the caller's variable holds the id, and the thread goes
on with the id and the text it got. -/
inductive HandsBack (s s' : Network) (p : PeerID) (id : SMessageID) (message : Str) :
    Label → Prop
  | intro {th : Thread} {now : Int} {sec : Section} {rest own : List Section} {out : Var}
      {wait : Option Str} (ran : (s.peers p).threads th = sec :: rest)
      (creates : sec.createsInto? = some out)
      (handed : (s'.peers p).tables.messageId out = id)
      (goesOn : (s'.peers p).threads th = .cacheOwnQuery id message wait :: (own ++ rest)) :
      HandsBack s s' p id message (.run p th now)

/-- What holds of the ids of a run so far. -/
structure Network.IdsKnown (net : Setup) (s : Network) : Prop where
  /-- A peer's ids are numbered in the order they were issued. -/
  numbered : Numbered SMessageID.peerId SMessageID.msgId (issuedIds s.log)
    fun p => (s.peers p).tables.msgIdCounter
  /-- With fewer than 2^64 messages, the next one included, no counter wraps around. -/
  bounded : ∀ p, (issuedIds s.log).length + 1 < counterLimit →
    (s.peers p).tables.msgIdCounter + 1 < counterLimit
  /-- No two issued ids compare equal. -/
  distinct : (issuedIds s.log).Pairwise fun id id' => (id == id') = false
  /-- An id names the peer that issued it, and is the one its text says. -/
  written : ∀ p id message, (p, .issued id message) ∈ s.log →
    id.peerId = p ∧ parseMessageId (splitFields message) = .ok id
  /-- The caller gets the id that is in the text. -/
  handedBack : ∀ l s' new p id message, step net s l = some s' → s'.log = s.log ++ new →
    (p, .issued id message) ∈ new →
    HandsBack s s' p id message l ∧ parseMessageId (splitFields message) = .ok id
  /-- The originator of a text that is queued or further on has its id, unless
  `MantainQueryMapSize` removed it. -/
  atHome : ∀ pl, ∀ sec ∈ s.sectionsAt pl, ∀ message id, sec.travelling? = some message →
    parseMessageId (splitFields message) = .ok id → ¬Evicted s.log id.peerId id →
    s.upstream id.peerId id = some (-1)

section Creators

variable {net : Setup} {s s' : Network} {a : Flood} {p : PeerID} {now : Int} {t : Tables}
  {sec : Section} {o : Outcome} {id : SMessageID} {message : Str}

theorem createMessage_cases {out : Var} {wait : Option Str} {rest : List Section}
    (h : createMessage p t out now message wait rest = some o) :
    o.tables = t.afterCreate p out now ∧
      o.next = .cacheOwnQuery (t.nextId p now) message wait :: rest ∧
      o.events = [.issued (t.nextId p now) message] := by
  unfold createMessage at h
  split at h
  · injection h with h
    subst h
    exact ⟨rfl, rfl, rfl⟩
  · cases h

/-- **What the three creators have in common.** `SendInvQuery` may return before it
calls one. -/
theorem exec_creates {out : Var} (hout : sec.createsInto? = some out)
    (h : exec net p now t sec = some o) :
    o.events = [] ∨ ∃ message wait own, o.tables = t.afterCreate p out now ∧
      o.next = .cacheOwnQuery (t.nextId p now) message wait :: own ∧
      o.events = [.issued (t.nextId p now) message] := by
  cases sec with
  | sendQuery out' f w =>
      injection hout with hout
      subst hout
      exact .inr ⟨_, _, _, createMessage_cases h⟩
  | createCommonQuery test n =>
      injection hout with hout
      subst hout
      exact .inr ⟨_, _, _, createMessage_cases h⟩
  | sendInvQuery out' f w =>
      injection hout with hout
      subst hout
      simp only [exec, sendInvQuery] at h
      split at h
      · injection h with h
        subst h
        exact .inl rfl
      · exact .inr ⟨_, _, _, createMessage_cases h⟩
  | _ => cases hout

theorem createsInto_of_creates {task : Task} {r : Request} {w : Option Str}
    (hc : Creates net p task r w) : ∃ out, task.code.createsInto? = some out := by
  cases hc with
  | query out f w | invQuery out f w hR => exact ⟨out, rfl⟩
  | test test n => exact ⟨.scratch, rfl⟩

/-- A thread that logs an id has run a creator. -/
theorem exec_issued {task : Task} (hv : task.Valid)
    (h : exec net p now t task.code = some o) (hev : .issued id message ∈ o.events) :
    ∃ out wait own, task.code.createsInto? = some out ∧
      o.tables = t.afterCreate p out now ∧ id = t.nextId p now ∧
      o.next = .cacheOwnQuery id message wait :: own := by
  have hcode := h
  rw [exec_code net p hv] at hcode
  obtain ⟨e, hperform, rfl⟩ := Option.map_eq_some_iff.mp hcode
  obtain ⟨ev, hmem, hmap⟩ := List.mem_map.mp hev
  cases ev with
  | issued id' m =>
      obtain ⟨r, w, hc⟩ := creates_of_issued hperform (List.mem_append_left _ hmem)
      obtain ⟨out, hout⟩ := createsInto_of_creates hc
      rcases exec_creates hout h with hnone | ⟨m', wait, own, htables, hnext, hevents⟩
      · rw [hnone] at hev
        cases hev
      · rw [hevents] at hev
        injection List.mem_singleton.mp hev with hid hm
        exact ⟨out, wait, own, hout, htables, hid, by rw [hid, hm]; exact hnext⟩
  | _ => cases hmap

/-- The id of an issued message is the one its text says. -/
theorem written_of_issued (h : Refines s a) (ha : (flood net).Reachable a)
    (hev : (p, .issued id message) ∈ s.log) :
    id.peerId = p ∧ parseMessageId (splitFields message) = .ok id := by
  obtain ⟨x, hx, rfl, hp, rfl⟩ := h.issued ha hev
  have hv : x.Valid := (reachable_valid ha).log _ hx
  refine ⟨hp, ?_⟩
  rw [splitFields_query hv]
  exact parseMessageId_fields hv.1 _ _ _ _

theorem handsBack_of_step {l : Label} {new : List (PeerID × Event Str)} (h : Refines s a)
    (ha : (flood net).Reachable a) (hstep : step net s l = some s')
    (hlog : s'.log = s.log ++ new) (hev : (p, .issued id message) ∈ new) :
    HandsBack s s' p id message l := by
  rcases step_log_cases hstep with ⟨q, th, now, rfl⟩ | hsame | ⟨q, cmd, hcmd⟩ | ⟨q, r, m, hrecv⟩
  · obtain ⟨-, sec, rest, o, hsec, hexec, rfl⟩ := step_run_cases hstep
    have hnew : new = (o.events ++ o.sent.map fun x => Event.sent x.1 x.2).map (q, ·) :=
      (List.append_cancel_left hlog).symm
    rw [hnew] at hev
    obtain ⟨ev, hmem, heq⟩ := List.mem_map.mp hev
    injection heq with hq hissued
    subst hq hissued
    have hevents : .issued id message ∈ o.events := by
      rcases List.mem_append.mp hmem with hmem | hmem
      · exact hmem
      · obtain ⟨x, -, hx⟩ := List.mem_map.mp hmem
        cases hx
    have hmem : sec ∈ s.sectionsAt (.thread q th) := by
      rw [Network.sectionsAt, hsec]
      exact List.mem_cons_self
    obtain ⟨task, hwork, rfl⟩ := h.exists_task hmem
    obtain ⟨out, wait, own, hout, htables, hid, hnext⟩ :=
      exec_issued ((reachable_valid ha).work _ hwork) hexec hevents
    have hthreads : ((commit s q th rest o).peers q).threads th =
        .cacheOwnQuery id message wait :: (own ++ rest) := by
      rw [commit_threads, Function.update_self, hnext]
      rfl
    refine .intro hsec hout ?_ hthreads
    rw [commit_tables, htables, hid]
    exact Function.update_self ..
  · rw [hsame] at hlog
    rw [List.self_eq_append_right.mp hlog] at hev
    cases hev
  · rw [hcmd] at hlog
    rw [← List.append_cancel_left hlog] at hev
    cases List.mem_singleton.mp hev
  · rw [hrecv] at hlog
    rw [← List.append_cancel_left hlog] at hev
    cases List.mem_singleton.mp hev

/-- The id in the text of a program point is the one its task carries. -/
theorem carried_of_travelling {task : Task} (hv : task.Valid)
    (htext : task.code.travelling? = some message)
    (hid : parseMessageId (splitFields message) = .ok id) : task.carried? = some id := by
  have hquery : ∀ {x : Query}, x.Valid → x.text = message → x.id = id := by
    intro x hx htext
    subst htext
    rw [splitFields_query hx, show parseMessageId x.fields = .ok x.id from
      parseMessageId_fields hx.1 _ _ _ _] at hid
    injection hid
  have hhit : ∀ {x : Hit}, x.Valid → x.text = message → x.id = id := by
    intro x hx htext
    subst htext
    rw [splitFields_hit hx, show parseMessageId x.fields = .ok x.id from
      parseMessageId_fields hx.1 _ _ _ _] at hid
    injection hid
  cases task with
  | broadcastOwn x w | handleQuery x | cacheQuery x | act x | relay x | lockSendBuffer x _
  | sendTo _ x =>
      injection htext with htext
      exact congrArg some (hquery hv htext)
  | handleHit x | relayHit x =>
      injection htext with htext
      exact congrArg some (hhit hv htext)
  | _ => cases htext

end Creators

/-- **Message ids are unique and known before they travel.** -/
theorem message_ids (net : Setup) (s : Network) (h : Reachable net s) : s.IdsKnown net := by
  obtain ⟨a, ha, hR⟩ := exists_flood h
  have hids : issuedIds s.log = issuedIds a.log := by
    rw [issuedIds, issuedIds, hR.log, List.filterMap_map]
    refine List.filterMap_congr fun e _ => ?_
    obtain ⟨r, ev⟩ := e
    cases ev <;> rfl
  have hnumbered : Numbered SMessageID.peerId SMessageID.msgId (issuedIds s.log)
      fun p => (s.peers p).tables.msgIdCounter := by
    rw [hids]
    exact (reachable_numbered ha).congr fun p => by rw [hR.tables p]
  refine ⟨hnumbered, ?_, ?_, fun p id message => written_of_issued hR ha, ?_, ?_⟩
  · intro p hfew
    have hle : (s.peers p).tables.msgIdCounter ≤ (issuedIds s.log).length :=
      hnumbered.count_le p
    exact Nat.lt_of_le_of_lt (Nat.succ_le_succ hle) hfew
  · refine hnumbered.pairwise.imp fun {id id'} hne => ?_
    rw [Bool.eq_false_iff]
    exact fun heq => hne (SMessageID.beq_iff.mp heq)
  · intro l s' new p id message hstep hlog hev
    refine ⟨handsBack_of_step hR ha hstep hlog hev, ?_⟩
    obtain ⟨a', ha', hR'⟩ := step_refines ha hR hstep
    refine (written_of_issued hR' (.step l ha ha') (p := p) ?_).2
    rw [hlog]
    exact List.mem_append_right _ hev
  · intro pl sec hsec message id htext hid hkept
    obtain ⟨task, hwork, rfl⟩ := hR.exists_task hsec
    have hcarried := carried_of_travelling ((reachable_valid ha).work _ hwork) htext hid
    rw [hR.upstream]
    refine ((reachable_fromHome ha).1 _ hwork id hcarried).live ha ?_
    exact fun hev => hkept (hR.evicted hev)

/-- All three creators, on three threads: peer 0 replicates and queries, peer 2 starts
a test, and peer 1 queries for it. -/
def manyIssued : Network :=
  finalState twoCopies
    (Label.turns 0 .replicate 0 2 ++
      (Label.commandRun 2 (.concurrent .concurrentTestQuery ⟨2, by decide⟩) 3 ++
        (Label.commandRun 0 (.query theFile) 2 ++
          (Label.broadcastRun 2 1 ++ Label.handleRun 2 1 4))))

/-- Each peer starts at number 0. -/
theorem message_ids_manyIssued :
    Reachable twoCopies manyIssued ∧
      issuedIds manyIssued.log = [⟨0, 0, 0⟩, ⟨2, 0, 0⟩, ⟨0, 1, 0⟩, ⟨1, 0, 0⟩] ∧
      manyIssued.IdsKnown twoCopies :=
  ⟨reachable_finalState twoCopies _, by decide +kernel,
    message_ids twoCopies manyIssued (reachable_finalState twoCopies _)⟩

end P2PFileSharing
