import P2PFileSharing.Model.MessageRound
import P2PFileSharing.Proofs.Filling
import P2PFileSharing.Spec.Format

/-!
# The handlers on any text

What a handler can have found in a text that it did not stumble over, and that none
stumbles over a text that is well formed, nor does anything the rest of the round does
with it.
-/

namespace P2PFileSharing

variable {net : Setup} {me : PeerID} {now : Int} {t : Tables} {message : Str}
  {handler : Handler} {type : HitType} {id : SMessageID} {upstream : PeerID} {o : Outcome}
  {text : Str} {timeToLive : Int}

/-! ## The dispatch -/

theorem handleMessage_of_flood (me : PeerID) (now : Int) (t : Tables)
    (h : messageKind message = some (.flood handler)) :
    handleMessage me now t message = receiveQuery handler t message := by
  unfold messageKind at h
  unfold handleMessage
  dsimp only at h ⊢
  split_ifs at h ⊢ <;> cases h <;> rfl

theorem handleMessage_of_hit (me : PeerID) (now : Int) (t : Tables)
    (h : messageKind message = some (.hit type)) :
    handleMessage me now t message = handleQueryHit me now t message := by
  unfold messageKind at h
  unfold handleMessage
  dsimp only at h ⊢
  split_ifs at h ⊢ <;> cases h <;> rfl

theorem handleMessage_of_none (me : PeerID) (now : Int) (t : Tables)
    (h : messageKind message = none) :
    handleMessage me now t message = .ok { tables := t } := by
  unfold messageKind at h
  unfold handleMessage
  dsimp only at h ⊢
  split_ifs at h ⊢
  rfl

/-! ## What a handler read -/

/-- A flooded message that was read is dropped, or goes on to `CacheQuery`. -/
theorem receiveQuery_cases (h : receiveQuery handler t message = .ok o) :
    ∃ id, parseMessageId (splitFields message) = .ok id ∧
      ((t.isQueryCached id = true ∧ o = { tables := t }) ∨
        (t.isQueryCached id = false ∧ ∃ upstream,
          o = { tables := t, next := [.cacheQuery handler message id upstream] })) := by
  unfold receiveQuery at h
  obtain ⟨id, hid, h⟩ := bind_eq_ok.mp h
  refine ⟨id, hid, ?_⟩
  split at h
  · next hcached =>
      injection h with h
      exact .inl ⟨hcached, h.symm⟩
  · next hcached =>
      obtain ⟨_, -, h⟩ := bind_eq_ok.mp h
      obtain ⟨upstream, -, h⟩ := bind_eq_ok.mp h
      injection h with h
      exact .inr ⟨Bool.eq_false_iff.mpr hcached, upstream, h.symm⟩

/-- A hit that was read is dropped, recorded by its originator, or relayed. -/
theorem handleQueryHit_cases (h : handleQueryHit me now t message = .ok o) :
    (∃ f, parseMessageId (splitFields message) = .error f ∧ f ≠ .missingField ∧
      o = { tables := t }) ∨
    ∃ id, parseMessageId (splitFields message) = .ok id ∧
      ((id.peerId = me ∧
        ((t.isQueryCached id = false ∧ o = { tables := t }) ∨
          ∃ type result, o = { tables := t, next := [.recordQueryHit type id result] })) ∨
      (id.peerId ≠ me ∧ ∃ text timeToLive, (splitFields message)[4]? = some text ∧
        stoi text = .ok timeToLive ∧
        ((wrapInt (timeToLive - 1) ≤ 0 ∧ o = { tables := t }) ∨
          o =
            { tables := t, next := [.relayQueryHit (joinFields (splitFields message)) id] }))) := by
  unfold handleQueryHit at h
  dsimp only at h
  split at h
  · cases h
  · next f hf hid =>
      injection h with h
      exact .inl ⟨f, hid, hf, h.symm⟩
  · next id hid =>
      refine .inr ⟨id, hid, ?_⟩
      obtain ⟨type, -, h⟩ := bind_eq_ok.mp h
      split at h
      · next hme =>
          refine .inl ⟨hme, ?_⟩
          split at h
          · next hcached =>
              injection h with h
              exact .inl ⟨by simpa using hcached, h.symm⟩
          · obtain ⟨_, -, h⟩ := bind_eq_ok.mp h
            obtain ⟨originator, -, h⟩ := bind_eq_ok.mp h
            obtain ⟨ip, -, h⟩ := bind_eq_ok.mp h
            injection h with h
            exact .inr ⟨type, _, h.symm⟩
      · next hme =>
          refine .inr ⟨hme, ?_⟩
          obtain ⟨text, h4, h⟩ := bind_eq_ok.mp h
          obtain ⟨timeToLive, hstoi, h⟩ := bind_eq_ok.mp h
          refine ⟨text, timeToLive, getElem?_of_field h4, hstoi, ?_⟩
          split at h
          · next hle =>
              injection h with h
              exact .inl ⟨hle, h.symm⟩
          · injection h with h
            exact .inr h.symm

/-! ## Texts that are dropped -/

/-- A message with an id has a type. -/
theorem field_zero_of_id (hid : parseMessageId (splitFields message) = .ok id) :
    ∃ type, field (splitFields message) 0 = .ok type := by
  cases hvec : splitFields message with
  | nil =>
      rw [hvec] at hid
      cases hid
  | cons type rest => exact ⟨type, rfl⟩

/-- A hit on its last hop. -/
theorem handleQueryHit_drop (hid : parseMessageId (splitFields message) = .ok id)
    (hme : id.peerId ≠ me) (h4 : (splitFields message)[4]? = some text)
    (hstoi : stoi text = .ok timeToLive) (hle : wrapInt (timeToLive - 1) ≤ 0) :
    handleQueryHit me now t message = .ok { tables := t } := by
  obtain ⟨type, htype⟩ := field_zero_of_id hid
  simp only [handleQueryHit, hid, htype, field_of_getElem? h4, hstoi, bind, Except.bind, if_neg hme,
    if_pos hle]
  rfl

/-! ## Well-formed texts -/

/-- What a handler reads in the sections of its round is there. -/
def Section.Sound : Section → Prop
  | .handle message => WellFormed message
  | .cacheQuery handler message _ _ | .act handler message _ _ | .relayQuery handler message _ _ =>
      (MessageKind.flood handler).Fits (splitFields message)
  | _ => True

/-- No exception escaped, and the thread goes on with sections that are sound. -/
structure Outcome.Sound (o : Outcome) : Prop where
  fault : ∀ f, o.tables.fault = some f → f = .assertionFailed
  next : ∀ sec ∈ o.next, sec.Sound

theorem Outcome.Sound.of_none (hfault : o.tables.fault = none)
    (hnext : ∀ sec ∈ o.next, sec.Sound) : o.Sound where
  fault f hf := by
    rw [hfault] at hf
    cases hf
  next := hnext

theorem Outcome.Sound.of_nil (hfault : o.tables.fault = none) (hnext : o.next = []) : o.Sound :=
  .of_none hfault (by rw [hnext]; exact List.forall_mem_nil _)

theorem Outcome.Sound.of_singleton {sec : Section} (hfault : o.tables.fault = none)
    (hnext : o.next = [sec]) (hsec : sec.Sound) : o.Sound :=
  .of_none hfault (by rw [hnext]; exact List.forall_mem_singleton.mpr hsec)

theorem receiveQuery_sound (ht : t.fault = none)
    (h : (MessageKind.flood handler).Fits (splitFields message)) :
    ∃ o, receiveQuery handler t message = .ok o ∧ o.Sound := by
  obtain ⟨id, hid⟩ := h.parseMessageId
  obtain ⟨text, h5, upstream, hstoi⟩ := accepts_field (i := 5) h rfl
  simp only [receiveQuery, hid, h5, hstoi, bind, Except.bind]
  split
  · exact ⟨_, rfl, .of_nil ht rfl⟩
  · exact ⟨_, rfl, .of_singleton ht rfl h⟩

theorem handleQueryHit_sound (ht : t.fault = none)
    (h : (MessageKind.hit type).Fits (splitFields message)) :
    ∃ o, handleQueryHit me now t message = .ok o ∧ o.Sound := by
  obtain ⟨id, hid⟩ := h.parseMessageId
  obtain ⟨type', h0, -⟩ := accepts_field (i := 0) h rfl
  obtain ⟨text, h4, timeToLive, httl⟩ := accepts_field (i := 4) h rfl
  obtain ⟨text', h5, originator, horigin⟩ := accepts_field (i := 5) h rfl
  have hargs : (headFormat ++ (MessageKind.hit type).args)[6]? = some .text := by
    cases type <;> rfl
  obtain ⟨ip, h6, -⟩ := accepts_field h hargs
  simp only [handleQueryHit, hid, h0, h4, h5, h6, httl, horigin, bind, Except.bind]
  split
  · split
    · exact ⟨_, rfl, .of_nil ht rfl⟩
    · exact ⟨_, rfl, .of_singleton ht rfl trivial⟩
  · split
    · exact ⟨_, rfl, .of_nil ht rfl⟩
    · exact ⟨_, rfl, .of_singleton ht rfl trivial⟩

theorem handleMessage_sound (ht : t.fault = none) (h : WellFormed message) :
    ∃ o, handleMessage me now t message = .ok o ∧ o.Sound := by
  obtain ⟨kind, hkind, hfits⟩ := h
  cases kind with
  | flood handler =>
      rw [handleMessage_of_flood me now t hkind]
      exact receiveQuery_sound ht hfits
  | hit type =>
      rw [handleMessage_of_hit me now t hkind]
      exact handleQueryHit_sound ht hfits

/-! ## The rest of the round -/

theorem sendTestQuery_sound : ∀ sec ∈ sendTestQuery net me, sec.Sound := by
  intro sec hsec
  rcases List.mem_append.mp hsec with hsec | hsec
  · obtain ⟨i, -, rfl⟩ := List.mem_map.mp hsec
    trivial
  · rw [List.mem_singleton.mp hsec]
    trivial

/-- So many calls of `ObtainFile`. -/
theorem obtainFiles_sound (n : Nat) (out : Var) (filename : Str) :
    ∀ sec ∈ (List.replicate n (obtainFile out filename)).flatten, sec.Sound := by
  intro sec hsec
  obtain ⟨l, hl, hsec⟩ := List.mem_flatten.mp hsec
  rw [List.eq_of_mem_replicate hl, obtainFile, List.mem_singleton] at hsec
  rw [hsec]
  trivial

theorem ownTest_sound (test : TestCommand) : ∀ sec ∈ test.ownTest net me, sec.Sound := by
  cases test with
  | concurrentTestQuery => exact sendTestQuery_sound
  | testObtain2 => exact obtainFiles_sound _ _ _
  | testObtain3 => exact obtainFiles_sound _ _ _

/-- The handler's own part. -/
theorem actOn_sound (ht : t.fault = none)
    (h : (MessageKind.flood handler).Fits (splitFields message)) :
    ∃ o, actOn net me handler t message id upstream = .ok o ∧ o.Sound := by
  have hrelay : ∀ sec ∈ [Section.relayQuery handler message id upstream], sec.Sound :=
    List.forall_mem_singleton.mpr h
  cases handler with
  | query =>
      obtain ⟨filename, h6, -⟩ := accepts_field (i := 6) h rfl
      simp only [actOn, actOnQuery, h6, bind, Except.bind]
      split
      · exact ⟨_, rfl, .of_singleton ht rfl trivial⟩
      · exact ⟨_, rfl, .of_none ht hrelay⟩
  | invQuery =>
      obtain ⟨filename, h6, -⟩ := accepts_field (i := 6) h rfl
      obtain ⟨text, h7, factor, hfactor⟩ := accepts_field (i := 7) h rfl
      simp only [actOn, actOnInvQuery, h6, h7, hfactor, bind, Except.bind]
      split
      · exact ⟨_, rfl, .of_nil ht rfl⟩
      · split
        · exact ⟨_, rfl, .of_none ht hrelay⟩
        · exact ⟨_, rfl, .of_none ht (List.forall_mem_cons.mpr ⟨trivial, hrelay⟩)⟩
  | conTestQuery =>
      obtain ⟨text, h6, requirement, hreq⟩ := accepts_field (i := 6) h rfl
      simp only [actOn, actOnConcurrentTestQuery, h6, hreq, bind, Except.bind]
      refine ⟨_, rfl, .of_none ht (List.forall_mem_append.mpr ⟨?_, hrelay⟩)⟩
      split
      · exact sendTestQuery_sound
      · exact List.forall_mem_nil _
  | conTestObtain =>
      obtain ⟨text, h6, requirement, hreq⟩ := accepts_field (i := 6) h rfl
      obtain ⟨variant, h7, -⟩ := accepts_field (i := 7) h rfl
      simp only [actOn, actOnConcurrentTestObtain, h6, h7, hreq, bind, Except.bind]
      split
      · refine ⟨_, rfl, .of_none ht (List.forall_mem_append.mpr ⟨?_, hrelay⟩)⟩
        split
        · exact obtainFiles_sound _ _ _
        · exact obtainFiles_sound _ _ _
      · exact ⟨_, rfl, .of_none ht (List.forall_mem_append.mpr ⟨List.forall_mem_nil _, hrelay⟩)⟩

theorem field_set_ne {vec : List Str} {i j : Nat} {s : Str} (h : i ≠ j) :
    field (vec.set i s) j = field vec j := by
  rw [field, field, List.getElem?_set_ne h]

/-- The end of a handler. -/
theorem relayQuery_sound (ht : t.fault = none)
    (h : (MessageKind.flood handler).Fits (splitFields message)) :
    ∃ o, relayQuery me handler t message id upstream = .ok o ∧ o.Sound := by
  obtain ⟨text, h4, timeToLive, httl⟩ := accepts_field (i := 4) h rfl
  unfold relayQuery
  by_cases hinv : handler = .invQuery
  · subst hinv
    obtain ⟨text', h7, factor, hfactor⟩ := accepts_field (i := 7) h rfl
    have h4' : ∀ s, field ((splitFields message).set 7 s) 4 = .ok text := by
      intro s
      rw [field_set_ne (by decide), h4]
    by_cases hle : wrapInt (factor - 1) ≤ 0
    · simp only [if_true, h7, hfactor, bind, Except.bind, if_pos hle]
      exact ⟨_, rfl, .of_nil ht rfl⟩
    · simp only [if_true, h7, hfactor, bind, Except.bind, if_neg hle, pure, Except.pure, h4', httl]
      split
      · exact ⟨_, rfl, .of_nil ht rfl⟩
      · exact ⟨_, rfl, .of_nil ht rfl⟩
  · simp only [if_neg hinv, h4, httl, bind, Except.bind, pure, Except.pure]
    split
    · exact ⟨_, rfl, .of_nil ht rfl⟩
    · exact ⟨_, rfl, .of_nil ht rfl⟩

theorem orAbort_sound {r : Except Fault Outcome} (h : ∃ o, r = .ok o ∧ o.Sound) :
    (orAbort t r).Sound := by
  obtain ⟨o, rfl, ho⟩ := h
  exact ho

theorem createMessage_sound {out : Var} {wait : Option Str} {rest : List Section}
    (ht : t.fault = none) (hrest : ∀ sec ∈ rest, sec.Sound)
    (h : createMessage me t out now message wait rest = some o) : o.Sound := by
  unfold createMessage at h
  split at h
  · injection h with h
    rw [← h]
    exact .of_none ht (List.forall_mem_cons.mpr ⟨trivial, hrest⟩)
  · cases h

theorem sendInvQuery_sound {out : Var} {filename : Str} {wait : Bool} (ht : t.fault = none)
    (h : sendInvQuery net me t out filename wait now = some o) : o.Sound := by
  unfold sendInvQuery at h
  split at h
  · injection h with h
    rw [← h]
    refine .of_none ht ?_
    cases wait with
    | true => exact List.forall_mem_singleton.mpr trivial
    | false => exact List.forall_mem_nil _
  · exact createMessage_sound ht (List.forall_mem_nil _) h

theorem lockSendBuffer_sound {exclude : PeerID} (ht : t.fault = none)
    (h : lockSendBuffer net me t message exclude = some o) : o.Sound := by
  unfold lockSendBuffer at h
  split at h
  · cases h
  · injection h with h
    rw [← h]
    refine .of_none ht (List.forall_mem_append.mpr ⟨fun sec hsec => ?_,
      List.forall_mem_singleton.mpr trivial⟩)
    obtain ⟨q, -, rfl⟩ := List.mem_map.mp hsec
    trivial

theorem relayQueryHit_sound (ht : t.fault = none)
    (h : relayQueryHit net me t message id = some o) : o.Sound := by
  unfold relayQueryHit at h
  split at h
  · cases h
  · dsimp only at h
    split at h
    · injection h with h
      rw [← h]
      exact .of_nil ht rfl
    · injection h with h
      rw [← h]
      refine ⟨fun f hf => ?_, List.forall_mem_nil _⟩
      injection hf with hf
      exact hf.symm

theorem cacheQuery_fault (ht : t.fault = none) : (t.cacheQuery id upstream).fault = none := by
  rw [(cacheQuery_other t id upstream).1, ht]

/-- A sound section lets no exception escape, and is followed by sound ones. -/
theorem exec_sound {sec : Section} (ht : t.fault = none) (hsec : sec.Sound)
    (h : exec net me now t sec = some o) : o.Sound := by
  cases sec with
  | handle message =>
      injection h with h
      rw [← h]
      exact orAbort_sound (handleMessage_sound ht hsec)
  | act handler message id upstream =>
      injection h with h
      rw [← h]
      exact orAbort_sound (actOn_sound ht hsec)
  | relayQuery handler message id upstream =>
      injection h with h
      rw [← h]
      exact orAbort_sound (relayQuery_sound ht hsec)
  | cacheQuery handler message id upstream =>
      injection h with h
      rw [← h]
      exact .of_singleton (cacheQuery_fault ht) rfl hsec
  | relayQueryHit message id => exact relayQueryHit_sound ht h
  | sendQuery out filename wait => exact createMessage_sound ht (List.forall_mem_nil _) h
  | createCommonQuery test n => exact createMessage_sound ht (ownTest_sound test) h
  | sendInvQuery out filename wait => exact sendInvQuery_sound ht h
  | cacheOwnQuery id message wait =>
      injection h with h
      rw [← h]
      exact .of_singleton (cacheQuery_fault ht) rfl trivial
  | broadcastOwn id message wait =>
      injection h with h
      rw [← h]
      refine .of_none ht fun sec hsec => ?_
      obtain ⟨f, -, rfl⟩ := List.mem_map.mp hsec
      trivial
  | recordQueryHit type id result =>
      injection h with h
      rw [← h]
      exact .of_singleton ht rfl trivial
  | takeWaitQueryHit type id =>
      injection h with h
      rw [← h]
      unfold takeWaitQueryHit
      split
      · exact .of_nil ht rfl
      · exact .of_singleton ht rfl trivial
  | startTransfers type id filename =>
      injection h with h
      rw [← h]
      unfold startTransfers
      split
      · exact .of_nil ht rfl
      · exact .of_nil ht rfl
  | startReplicateAllFiles =>
      injection h with h
      rw [← h]
      unfold startReplicateAllFiles
      split
      · exact .of_nil ht rfl
      · refine .of_none ht fun sec hsec => ?_
        obtain ⟨f, -, hsec⟩ := List.mem_flatMap.mp hsec
        unfold replicateFile at hsec
        split at hsec
        · rw [List.mem_singleton.mp hsec]
          trivial
        · cases hsec
  | lockSendBuffer message exclude => exact lockSendBuffer_sound ht h
  | setWaitQueryHit | sendTo | unlockSendBuffer | removeOldQueries | removeOldQueryHits
  | removeOldWaits =>
      injection h with h
      rw [← h]
      exact .of_nil ht rfl

end P2PFileSharing
