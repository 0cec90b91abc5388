import P2PFileSharing.Model.Scenario
import P2PFileSharing.Proofs.MessageRound

/-!
# The TTL of a hit

`HandleQueryHit` decreases a copy of the TTL and forgets it: unlike the handlers of queries it
does not put the new value into field 4, so a hit goes on with the TTL it came with. A hit
that comes with a TTL of at most 1 is dropped, unless it is the smallest `int`, which `--` makes
the largest. Any other is forwarded as it is, and where the upstream pointers form a cycle it is
forwarded for ever.
-/

namespace P2PFileSharing

variable {net : Setup} {me p q : PeerID} {now : Int} {t : Tables} {message message' text : Str}
  {id : SMessageID} {timeToLive : Int} {n : Nat}

/-- `HandleQueryHit` at one peer, and `RelayQueryHit` to the peer its table names. -/
def ForwardsHit (net : Setup) (p : PeerID) (message : Str) (q : PeerID) (message' : Str) : Prop :=
  ∃ now t o id o', handleQueryHit p now t message = .ok o ∧
    Section.relayQueryHit message' id ∈ o.next ∧
    relayQueryHit net p o.tables message' id = some o' ∧ (q, message') ∈ o'.sent

/-- A message that is forwarded so often on its way from a peer, whatever the tables say. -/
inductive ForwardedTimes (net : Setup) : Nat → PeerID → Str → Prop
  | zero (p : PeerID) (message : Str) : ForwardedTimes net 0 p message
  | succ {n : Nat} {p q : PeerID} {message message' : Str} :
      ForwardsHit net p message q message' → ForwardedTimes net n q message' →
      ForwardedTimes net (n + 1) p message

/-- A hop takes one from the TTL, or is the last; and so there are only so many of them. -/
structure ConsumesTtl (net : Setup) (me : PeerID) (now : Int) (t : Tables) (message : Str)
    (timeToLive : Int) : Prop where
  hop : ∃ o, handleQueryHit me now t message = .ok o ∧
    ((timeToLive - 1 ≤ 0 ∧ o.next = [] ∧ o.queued = [] ∧ o.sent = []) ∨
      ∃ forwarded id, o.next = [.relayQueryHit forwarded id] ∧
        splitFields forwarded = (splitFields message).set 4 (intToString (timeToLive - 1)))
  chain : ∀ n, ForwardedTimes net n me message → (n : Int) ≤ max 0 (timeToLive - 1)

/-! ## One hop -/

/-- The hit goes on with the fields it came with. -/
theorem handleQueryHit_forward (now : Int) (t : Tables)
    (hid : parseMessageId (splitFields message) = .ok id)
    (hme : id.peerId ≠ me) (h4 : (splitFields message)[4]? = some text)
    (hstoi : stoi text = .ok timeToLive) (hpos : ¬wrapInt (timeToLive - 1) ≤ 0) :
    handleQueryHit me now t message =
      .ok { tables := t, next := [.relayQueryHit (joinFields (splitFields message)) id] } := by
  obtain ⟨type, htype⟩ := field_zero_of_id hid
  simp only [handleQueryHit, hid, htype, field_of_getElem? h4, hstoi, bind, Except.bind, if_neg hme,
    if_neg hpos]
  rfl

/-- A message joined again is the same, or has lost an empty field at its end. -/
theorem splitFields_rejoined (message : Str) :
    splitFields (joinFields (splitFields message)) = splitFields message ∨
      (splitFields (joinFields (splitFields message))).length < (splitFields message).length := by
  have hnewline : ∀ s ∈ splitFields message, '\n' ∉ s := fun s => newline_notMem_splitFields
  by_cases hlast : ∀ s, (splitFields message).getLast? = some s → s ≠ []
  · exact .inl (splitFields_joinFields hnewline hlast)
  · right
    simp only [not_forall, not_not] at hlast
    obtain ⟨s, hs, rfl⟩ := hlast
    obtain ⟨front, hfront⟩ := List.getLast?_eq_some_iff.mp hs
    rw [hfront] at hnewline ⊢
    rw [splitFields_joinFields_blank fun s hs => hnewline s (List.mem_append_left _ hs),
      List.length_append, List.length_singleton]
    omega

/-- The number that is not written back is missed. -/
theorem splitFields_forwarded_ne (h4 : (splitFields message)[4]? = some text)
    (hstoi : stoi text = .ok timeToLive) :
    splitFields (joinFields (splitFields message)) ≠
      (splitFields message).set 4 (intToString (timeToLive - 1)) := by
  intro h
  rcases splitFields_rejoined message with hsame | hless
  · rw [hsame] at h
    have htext : text = intToString (timeToLive - 1) := by
      have hset := congrArg (fun vec => vec[4]?) h
      have hlen := (List.getElem?_eq_some_iff.mp h4).1
      rw [h4, List.getElem?_set_self hlen] at hset
      exact Option.some.inj hset
    rw [htext] at hstoi
    have hsame := eq_of_stoi_intToString hstoi
    omega
  · rw [h, List.length_set] at hless
    exact absurd hless (Nat.lt_irrefl _)

/-! ## All hops -/

theorem not_forwards (hid : parseMessageId (splitFields message) = .ok id) (hme : id.peerId ≠ me)
    (h4 : (splitFields message)[4]? = some text) (hstoi : stoi text = .ok timeToLive)
    (hle : wrapInt (timeToLive - 1) ≤ 0) : ¬ForwardsHit net me message q message' := by
  intro h
  obtain ⟨now, t, o, id', o', hhit, hmem, -⟩ := h
  rw [handleQueryHit_drop hid hme h4 hstoi hle] at hhit
  injection hhit with hhit
  rw [← hhit] at hmem
  cases hmem

/-- The tables of a peer that has only the upstream pointer of one hit. -/
def pointingTables (net : Setup) (p : PeerID) (id : SMessageID) (upstream : PeerID) : Tables :=
  { initialTables net p with queries := UnorderedMap.empty.insert id upstream }

/-- The hit goes where the pointer says. -/
theorem relayQueryHit_pointing (hq : q ∈ net.peerIdToSockfd p) :
    relayQueryHit net p (pointingTables net p id q) message id =
      some { tables := pointingTables net p id q, sent := [(q, message)] } := by
  have hfind : (pointingTables net p id q).queries.find? id = some q :=
    UnorderedMap.find?_insert_self _ _ _
  rw [relayQueryHit.eq_def, if_neg (show ¬(pointingTables net p id q).sendBufferMutex = true by
    exact Bool.false_ne_true)]
  simp only [UnorderedMap.index, hfind, if_pos hq]

/-- Two peers whose tables name each other forward a hit as often as one likes. -/
theorem forwardedTimes_cycle (hid : parseMessageId (splitFields message) = .ok id)
    (h4 : (splitFields message)[4]? = some text) (hstoi : stoi text = .ok timeToLive)
    (hpos : ¬wrapInt (timeToLive - 1) ≤ 0) (hjoin : joinFields (splitFields message) = message)
    (n : Nat) :
    ∀ {p q : PeerID}, id.peerId ≠ p → id.peerId ≠ q → q ∈ net.peerIdToSockfd p →
    p ∈ net.peerIdToSockfd q → ForwardedTimes net n p message := by
  induction n with
  | zero =>
      intro p q _ _ _ _
      exact .zero p message
  | succ n ih =>
      intro p q hp hq hpq hqp
      have hhit := handleQueryHit_forward 0 (pointingTables net p id q) hid hp h4 hstoi hpos
      rw [hjoin] at hhit
      have hhop : ForwardsHit net p message q message :=
        ⟨0, pointingTables net p id q, _, id, _, hhit, List.mem_cons_self,
          relayQueryHit_pointing hpq, List.mem_cons_self⟩
      exact .succ hhop (ih hq hp hqp hpq)

/-- The TTL is consumed by the hits that are dropped for it, and by no others. -/
theorem consumes_ttl_iff (hid : parseMessageId (splitFields message) = .ok id)
    (hme : id.peerId ≠ me) (h4 : (splitFields message)[4]? = some text)
    (hstoi : stoi text = .ok timeToLive) :
    ConsumesTtl net me now t message timeToLive ↔ timeToLive ≠ -2 ^ 31 ∧ timeToLive ≤ 1 := by
  rw [← wrapInt_sub_one_le_zero (isInt_of_stoi hstoi)]
  constructor
  · intro h
    by_contra hpos
    have hforward := handleQueryHit_forward now t hid hme h4 hstoi hpos
    obtain ⟨o, ho, hhop⟩ := h.hop
    rw [hforward] at ho
    injection ho with ho
    rcases hhop with ⟨-, hnext, -⟩ | ⟨forwarded, id', hnext, hfields⟩
    · rw [← ho] at hnext
      cases hnext
    · rw [← ho] at hnext
      injection hnext with hnext _
      injection hnext with hnext _
      rw [← hnext] at hfields
      exact splitFields_forwarded_ne h4 hstoi hfields
  · intro hle
    have hone := ((wrapInt_sub_one_le_zero (isInt_of_stoi hstoi)).mp hle).2
    refine ⟨⟨_, handleQueryHit_drop hid hme h4 hstoi hle, .inl ⟨by omega, rfl, rfl, rfl⟩⟩,
      fun n hn => ?_⟩
    cases hn with
    | zero => exact le_max_left _ _
    | succ hhop _ => exact absurd hhop (not_forwards hid hme h4 hstoi hle)

/-- A hit on its last hop: the originator is peer 2. -/
def lastHopHit : Str := "peer_query_hit\n2\n0\n0\n1\n1\nx\nf".toList

/-- Peer 0 drops a hit whose TTL is 1. -/
theorem consumes_ttl_iff_lastHop :
    ConsumesTtl lineOfThree 0 0 (initialTables lineOfThree 0) lastHopHit 1 := by
  have hid : parseMessageId (splitFields lastHopHit) = .ok ⟨2, 0, 0⟩ := rfl
  have h4 : (splitFields lastHopHit)[4]? = some ['1'] := by decide
  exact (consumes_ttl_iff hid (by decide) h4 rfl).mpr ⟨by decide, by decide⟩

/-- The hit of peer 1 for peer 2's query, as it is created. -/
def createdHit : Str := createQueryHitMessage lineOfThree 1 theFile.1 ⟨2, 0, 0⟩

/-- A hit created with a TTL of 5 is forwarded five times by peers 0 and 1, whose upstream
pointers form a cycle. -/
theorem createdHit_goes_round :
    ¬ConsumesTtl lineOfThree 0 0 (initialTables lineOfThree 0) createdHit 5 := by
  intro h
  have hid : parseMessageId (splitFields createdHit) = .ok ⟨2, 0, 0⟩ := rfl
  have h4 : (splitFields createdHit)[4]? = some ['5'] := by decide
  have hround : ForwardedTimes lineOfThree 5 0 createdHit :=
    forwardedTimes_cycle (q := 1) hid h4 rfl (by decide) rfl 5 (by decide) (by decide) (by decide)
      (by decide)
  have hbound := h.chain 5 hround
  exact absurd hbound (by decide)

end P2PFileSharing
