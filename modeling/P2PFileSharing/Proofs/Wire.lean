import P2PFileSharing.Model.Wire

/-!
# What the two ends of a link keep

Three equations, each over one link. The bytes written, with those the thread that
holds the mutex has still to write there, are the frames of the messages for that
peer in the order in which the mutex was taken. The bytes written are those dealt
with, those in the buffer and those under way. And the messages pushed to the queue
from there, with the one about to be, are the texts of the buffers dealt with.
-/

namespace P2PFileSharing

/-- What a step leaves behind. -/
inductive WireMove (net : Setup) (s : Wires) : WireLabel → Wires → Prop
  | broadcast (p : PeerID) (message : Str) (exclude : PeerID) :
      WireMove net s (.broadcast p message exclude)
        (s.setSender p
          { s.senders p with
            broadcastQueue := (s.senders p).broadcastQueue ++ [(message, exclude)]
            items := (s.senders p).items ++ [(message, exclude)] })
  | takeBroadcast (p : PeerID) {message : Str} {exclude : PeerID} {rest : List (Str × PeerID)}
      (hp : (s.senders p).point .broadcast = .idle)
      (hq : (s.senders p).broadcastQueue = (message, exclude) :: rest) :
      WireMove net s (.takeBroadcast p)
        (s.setSender p
          { (s.senders p).setPoint .broadcast (.toBroadcast message exclude) with
            broadcastQueue := rest })
  | relayQueryHit (p : PeerID) (message : Str) (hp : (s.senders p).point .message = .idle) :
      WireMove net s (.relayQueryHit p message)
        (s.setSender p ((s.senders p).setPoint .message (.toRelay message)))
  | lock (p : PeerID) (th : SendThread) (upstream : PeerID) {job : Sending}
      (hp : ((s.senders p).point th).sending? upstream = some job)
      (hfree : (s.senders p).sendBufferMutex = false)
      (hmem : ∀ q ∈ job.targets (net.peerIdToSockfd p), q ∈ net.peerIdToSockfd p) :
      WireMove net s (.lock p th upstream)
        (s.setSender p
          { (s.senders p).setPoint th
              (.sending (job.targets (net.peerIdToSockfd p)) job.message 0) with
            sendBufferMutex := true
            order := (s.senders p).order ++ [job] })
  | send (p : PeerID) (th : SendThread) (bytes : Nat) {q : PeerID} {rest : List PeerID}
      {message : Str} {sentBytes : Nat}
      (hp : (s.senders p).point th = .sending (q :: rest) message sentBytes)
      (hpos : 0 < bytes) (hle : bytes ≤ msgBufSize - sentBytes) :
      WireMove net s (.send p th bytes)
        ((s.setSender p ((s.senders p).setPoint th
            (sendingAfter q rest message (sentBytes + bytes)))).setWire p q
          ((s.wires p q).write (((msgFrame message).drop sentBytes).take bytes)))
  | unlock (p : PeerID) (th : SendThread) {message : Str} {sentBytes : Nat}
      (hp : (s.senders p).point th = .sending [] message sentBytes) :
      WireMove net s (.unlock p th)
        (s.setSender p { (s.senders p).setPoint th .idle with sendBufferMutex := false })
  | recv (p q : PeerID) (bytes : Nat) (hnone : (s.wires p q).handling = none) (hpos : 0 < bytes)
      (hroom : bytes ≤ msgBufSize - (s.wires p q).buffer.length)
      (hle : bytes ≤ (s.wires p q).stream.length) :
      WireMove net s (.recv p q bytes) (s.setWire p q ((s.wires p q).recv bytes))
  | deal (p q : PeerID) (hnone : (s.wires p q).handling = none)
      (hfull : (s.wires p q).buffer.length = msgBufSize) :
      WireMove net s (.deal p q) (s.setWire p q (s.wires p q).deal)
  | handleMessage (p q : PeerID) {message : Str}
      (hsome : (s.wires p q).handling = some message) :
      WireMove net s (.handleMessage p q)
        { s.setWire p q { s.wires p q with handling := none } with
          messages := Function.update s.messages q (s.messages q ++ [(p, message)]) }

theorem wireStep_move {net : Setup} {s s' : Wires} {l : WireLabel}
    (h : wireStep net s l = some s') : WireMove net s l s' := by
  cases l with
  | broadcast p message exclude =>
      cases h
      exact .broadcast p message exclude
  | takeBroadcast p =>
      dsimp only [wireStep] at h
      split at h
      · next hp hq =>
          cases h
          exact .takeBroadcast p hp hq
      · cases h
  | relayQueryHit p message =>
      dsimp only [wireStep] at h
      split at h
      · next hp =>
          cases h
          exact .relayQueryHit p message hp
      · cases h
  | lock p th upstream =>
      dsimp only [wireStep, Sender.lock] at h
      split at h
      · cases h
      · next job hp =>
          split at h
          · cases h
          · next x hx =>
              split at hx
              · next hlock =>
                  cases hx
                  cases h
                  exact .lock p th upstream hp hlock.1 hlock.2
              · cases hx
  | send p th bytes =>
      dsimp only [wireStep] at h
      split at h
      · next q rest message sentBytes hp =>
          split at h
          · next hb =>
              cases h
              exact .send p th bytes hp hb.1 hb.2
          · cases h
      · cases h
  | unlock p th =>
      dsimp only [wireStep] at h
      split at h
      · next hp =>
          cases h
          exact .unlock p th hp
      · cases h
  | recv p q bytes =>
      dsimp only [wireStep] at h
      split at h
      · next hb =>
          cases h
          exact .recv p q bytes hb.1 hb.2.1 hb.2.2.1 hb.2.2.2
      · cases h
  | deal p q =>
      dsimp only [wireStep] at h
      split at h
      · next hb =>
          cases h
          exact .deal p q hb.1 hb.2
      · cases h
  | handleMessage p q =>
      dsimp only [wireStep] at h
      split at h
      · cases h
      · next message hsome =>
          cases h
          exact .handleMessage p q hsome

/-- Every such step is possible. -/
theorem WireMove.step {net : Setup} {s s' : Wires} {l : WireLabel} (h : WireMove net s l s') :
    wireStep net s l = some s' := by
  cases h with
  | broadcast => rfl
  | takeBroadcast p hp hq =>
      dsimp only [wireStep]
      rw [hp, hq]
  | relayQueryHit p message hp =>
      dsimp only [wireStep]
      rw [hp]
  | lock p th upstream hp hfree hmem =>
      dsimp only [wireStep]
      rw [hp]
      dsimp only
      rw [Sender.lock, if_pos ⟨hfree, hmem⟩]
  | send p th bytes hp hpos hle =>
      dsimp only [wireStep]
      rw [hp]
      exact if_pos ⟨hpos, hle⟩
  | unlock p th hp =>
      dsimp only [wireStep]
      rw [hp]
  | recv p q bytes hnone hpos hroom hle => exact if_pos ⟨hnone, hpos, hroom, hle⟩
  | deal p q hnone hfull => exact if_pos ⟨hnone, hfull⟩
  | handleMessage p q hsome =>
      dsimp only [wireStep]
      rw [hsome]

/-! ## The sending side -/

section Sender

variable {connected : List PeerID} {x : Sender} {th : SendThread} {point : SendPoint} {q : PeerID}

/-- The thread is in the loop over partial writes. -/
def SendPoint.IsSending : SendPoint → Prop
  | .sending _ _ _ => True
  | _ => False

/-- What a thread in the loop has still to write to a peer. -/
def SendPoint.missing (q : PeerID) : SendPoint → Str
  | .sending (r :: rest) message sentBytes =>
      if q = r then (msgFrame message).drop sentBytes
      else if q ∈ rest then msgFrame message else []
  | _ => []

def Sender.missing (x : Sender) (q : PeerID) : Str :=
  (x.point .broadcast).missing q ++ (x.point .message).missing q

/-- The messages for a peer, in the order in which the mutex was taken. -/
def Sender.ordered (connected : List PeerID) (x : Sender) (q : PeerID) : List Str :=
  (x.order.filter fun job => q ∈ job.targets connected).map Sending.message

/-- The broadcast item a job sends. -/
def Sending.item? : Sending → Option (Str × PeerID)
  | .broadcast message exclude => some (message, exclude)
  | .hit _ _ => none

/-- The broadcast item a thread has taken from the queue and not yet locked for. -/
def SendPoint.item? : SendPoint → Option (Str × PeerID)
  | .toBroadcast message exclude => some (message, exclude)
  | _ => none

/-- The message at a program point can be sent, and the peers it goes to differ. -/
def SendPoint.Ok (connected : List PeerID) : SendPoint → Prop
  | .idle => True
  | .toBroadcast message _ | .toRelay message => Sendable message
  | .sending peers message sentBytes =>
      peers.Nodup ∧ (∀ q ∈ peers, q ∈ connected) ∧ Sendable message ∧ sentBytes < msgBufSize

structure Sender.Ok (connected : List PeerID) (x : Sender) : Prop where
  points : ∀ th, (x.point th).Ok connected
  held : ∀ th, (x.point th).IsSending → x.sendBufferMutex = true
  alone : ∀ th th', (x.point th).IsSending → (x.point th').IsSending → th = th'
  relay : ∀ message, x.point .broadcast ≠ .toRelay message
  broadcast : ∀ message exclude, x.point .message ≠ .toBroadcast message exclude
  queue : ∀ item ∈ x.broadcastQueue, Sendable item.1
  sendable : ∀ job ∈ x.order, Sendable job.message
  reached : ∀ job ∈ x.order, ∀ q ∈ job.targets connected, q ∈ connected

/-- The broadcast items queued so far are those sent, the one taken, and those queued. -/
def Sender.Fifo (x : Sender) : Prop :=
  x.items = x.order.filterMap Sending.item? ++
    ((x.point .broadcast).item?.toList ++ x.broadcastQueue)

theorem point_setPoint : (x.setPoint th point).point th = point := Function.update_self ..

theorem point_setPoint_of_ne {th' : SendThread} (h : th' ≠ th) :
    (x.setPoint th point).point th' = x.point th' := Function.update_of_ne h ..

theorem missing_of_not_isSending (h : ¬point.IsSending) : point.missing q = [] := by
  cases point with
  | sending => exact absurd trivial h
  | _ => rfl

/-- Only the thread in the loop has something to write. -/
theorem missing_eq (h : ∀ th', th' ≠ th → ¬(x.point th').IsSending) :
    x.missing q = (x.point th).missing q := by
  cases th with
  | broadcast =>
      rw [Sender.missing, missing_of_not_isSending (h .message (by decide)), List.append_nil]
  | message =>
      rw [Sender.missing, missing_of_not_isSending (h .broadcast (by decide)), List.nil_append]

theorem missing_setPoint (h : ∀ th', th' ≠ th → ¬(x.point th').IsSending) :
    (x.setPoint th point).missing q = point.missing q := by
  have hother : ∀ th', th' ≠ th → ¬((x.setPoint th point).point th').IsSending := by
    intro th' hne
    rw [point_setPoint_of_ne hne]
    exact h th' hne
  rw [missing_eq hother, point_setPoint]

/-- A thread that is not in the loop before or after a step owes as much as before. -/
theorem missing_setPoint_quiet (hold : ¬(x.point th).IsSending) (hnew : ¬point.IsSending) :
    (x.setPoint th point).missing q = x.missing q := by
  have h₁ := missing_of_not_isSending (q := q) hold
  have h₂ := missing_of_not_isSending (q := q) hnew
  cases th with
  | broadcast =>
      rw [Sender.missing, Sender.missing, point_setPoint, point_setPoint_of_ne (by decide), h₁, h₂]
  | message =>
      rw [Sender.missing, Sender.missing, point_setPoint, point_setPoint_of_ne (by decide), h₁, h₂]

theorem nodup_targets (hnodup : connected.Nodup) (job : Sending) :
    (job.targets connected).Nodup := by
  cases job with
  | broadcast => exact hnodup.filter _
  | hit => exact List.pairwise_singleton _ _

/-- A thread that starts the loop owes every peer of it the frame. -/
theorem missing_start (peers : List PeerID) (message : Str) :
    (SendPoint.sending peers message 0).missing q =
      if q ∈ peers then msgFrame message else [] := by
  cases peers with
  | nil => rfl
  | cons r rest =>
      rw [SendPoint.missing, List.drop_zero]
      by_cases hr : q = r
      · rw [if_pos hr, if_pos (by rw [hr]; exact List.mem_cons_self)]
      · rw [if_neg hr]
        by_cases hrest : q ∈ rest
        · rw [if_pos hrest, if_pos (List.mem_cons_of_mem _ hrest)]
        · rw [if_neg hrest, if_neg fun h => (List.mem_cons.mp h).elim hr hrest]

theorem length_msgFrame {message : Str} (h : Sendable message) :
    (msgFrame message).length = msgBufSize := length_pad (Nat.le_of_lt h.2.2)

/-- After a `send` the thread owes the current peer that many bytes less, and the others
the same. -/
theorem missing_sendingAfter {r : PeerID} {rest : List PeerID} {message : Str}
    {sentBytes bytes : Nat} (hnodup : (r :: rest).Nodup) (hm : Sendable message) :
    (sendingAfter r rest message (sentBytes + bytes)).missing q =
      if q = r then (msgFrame message).drop (sentBytes + bytes)
      else (SendPoint.sending (r :: rest) message sentBytes).missing q := by
  unfold sendingAfter
  split
  · by_cases hr : q = r
    · rw [if_pos hr, SendPoint.missing, if_pos hr]
    · rw [if_neg hr, SendPoint.missing, SendPoint.missing, if_neg hr, if_neg hr]
  · next hge =>
      rw [missing_start]
      by_cases hr : q = r
      · have hnot : q ∉ rest := by
          rw [hr]
          exact (List.nodup_cons.mp hnodup).1
        have hlen := length_msgFrame hm
        rw [if_pos hr, if_neg hnot, List.drop_of_length_le (by omega)]
      · rw [if_neg hr, SendPoint.missing, if_neg hr]

/-- A thread moves on without entering the loop. -/
theorem Sender.Ok.setPoint (h : x.Ok connected) (hp : point.Ok connected)
    (hkeep : point.IsSending → (x.point th).IsSending)
    (hrelay : th = .broadcast → ∀ message, point ≠ .toRelay message)
    (hbroadcast : th = .message → ∀ message exclude, point ≠ .toBroadcast message exclude) :
    (x.setPoint th point).Ok connected := by
  have hwas (th' : SendThread) (hs : ((x.setPoint th point).point th').IsSending) :
      (x.point th').IsSending := by
    by_cases hth : th' = th
    · subst hth
      rw [point_setPoint] at hs
      exact hkeep hs
    · rwa [point_setPoint_of_ne hth] at hs
  refine ⟨fun th' => ?_, fun th' hs => h.held th' (hwas th' hs),
    fun a b ha hb => h.alone a b (hwas a ha) (hwas b hb), ?_, ?_, h.queue, h.sendable, h.reached⟩
  · by_cases hth : th' = th
    · subst hth
      rw [point_setPoint]
      exact hp
    · rw [point_setPoint_of_ne hth]
      exact h.points th'
  · intro message
    by_cases hth : SendThread.broadcast = th
    · subst hth
      rw [point_setPoint]
      exact hrelay rfl message
    · rw [point_setPoint_of_ne hth]
      exact h.relay message
  · intro message exclude
    by_cases hth : SendThread.message = th
    · subst hth
      rw [point_setPoint]
      exact hbroadcast rfl message exclude
    · rw [point_setPoint_of_ne hth]
      exact h.broadcast message exclude

theorem sendable_of_sending? {upstream : PeerID} {job : Sending} (hp : point.Ok connected)
    (h : point.sending? upstream = some job) : Sendable job.message ∧ ¬point.IsSending := by
  cases point with
  | toBroadcast | toRelay =>
      cases h
      exact ⟨hp, fun h => h⟩
  | _ => cases h

/-- A thread takes the mutex. -/
theorem Sender.Ok.lock (h : x.Ok connected) (hnodup : connected.Nodup) {upstream : PeerID}
    {job : Sending} (hp : (x.point th).sending? upstream = some job)
    (hfree : x.sendBufferMutex = false)
    (hmem : ∀ q ∈ job.targets connected, q ∈ connected) :
    Sender.Ok connected
      { x.setPoint th (.sending (job.targets connected) job.message 0) with
        sendBufferMutex := true
        order := x.order ++ [job] } := by
  have hjob := (sendable_of_sending? (h.points th) hp).1
  have hnone (th' : SendThread) : ¬(x.point th').IsSending := by
    intro hs
    have := h.held th' hs
    rw [hfree] at this
    cases this
  have hwho (th' : SendThread)
      (hs : ((x.setPoint th
        (.sending (job.targets connected) job.message 0)).point th').IsSending) :
      th' = th := by
    by_cases hth : th' = th
    · exact hth
    · rw [point_setPoint_of_ne hth] at hs
      exact absurd hs (hnone th')
  refine ⟨fun th' => ?_, fun _ _ => rfl, fun a b ha hb => (hwho a ha).trans (hwho b hb).symm,
    ?_, ?_, h.queue, ?_, ?_⟩
  · by_cases hth : th' = th
    · subst hth
      show SendPoint.Ok connected ((x.setPoint th' _).point th')
      rw [point_setPoint]
      exact ⟨nodup_targets hnodup job, hmem, hjob, (by decide : 0 < 1024)⟩
    · show SendPoint.Ok connected ((x.setPoint th _).point th')
      rw [point_setPoint_of_ne hth]
      exact h.points th'
  · intro message
    show (x.setPoint th _).point .broadcast ≠ _
    by_cases hth : SendThread.broadcast = th
    · subst hth
      rw [point_setPoint]
      nofun
    · rw [point_setPoint_of_ne hth]
      exact h.relay message
  · intro message exclude
    show (x.setPoint th _).point .message ≠ _
    by_cases hth : SendThread.message = th
    · subst hth
      rw [point_setPoint]
      nofun
    · rw [point_setPoint_of_ne hth]
      exact h.broadcast message exclude
  · intro j hj
    rcases List.mem_append.mp hj with hj | hj
    · exact h.sendable j hj
    · rw [List.mem_singleton.mp hj]
      exact hjob
  · intro j hj
    rcases List.mem_append.mp hj with hj | hj
    · exact h.reached j hj
    · rw [List.mem_singleton.mp hj]
      exact hmem

/-- The thread gives the mutex back. -/
theorem Sender.Ok.unlock (h : x.Ok connected) (hs : (x.point th).IsSending) :
    Sender.Ok connected { x.setPoint th .idle with sendBufferMutex := false } := by
  have hset : (x.setPoint th .idle).Ok connected :=
    h.setPoint trivial (fun h => (nomatch h)) (fun _ _ => nofun) (fun _ _ _ => nofun)
  have hnone (th' : SendThread) : ¬((x.setPoint th .idle).point th').IsSending := by
    intro hs'
    by_cases hth : th' = th
    · subst hth
      rw [point_setPoint] at hs'
      exact hs'
    · rw [point_setPoint_of_ne hth] at hs'
      exact hth (h.alone th' th hs' hs)
  exact ⟨hset.points, fun th' hs' => absurd hs' (hnone th'),
    fun a _ ha _ => absurd ha (hnone a), hset.relay, hset.broadcast, h.queue, h.sendable,
    h.reached⟩

/-- What a lock adds to the messages for a peer. -/
theorem ordered_lock {y : Sender} {job : Sending} (h : y.order = x.order ++ [job]) :
    y.ordered connected q =
      x.ordered connected q ++ (if q ∈ job.targets connected then [job.message] else []) := by
  rw [Sender.ordered, h, List.filter_append, List.map_append, Sender.ordered]
  congr 1
  by_cases hq : q ∈ job.targets connected
  · rw [List.filter_cons_of_pos (by simpa using hq), if_pos hq]
    rfl
  · rw [List.filter_cons_of_neg (by simpa using hq), if_neg hq]
    rfl

end Sender

/-! ## The receiving side -/

/-- The bytes of a link are dealt with, in the buffer, or under way. -/
structure Wire.Ok (w : Wire) : Prop where
  bytes : w.dealt.flatten ++ (w.buffer ++ w.stream) = w.written
  full : ∀ b ∈ w.dealt, b.length = msgBufSize
  room : w.buffer.length ≤ msgBufSize

theorem Wire.Ok.write {w : Wire} (h : w.Ok) (bytes : Str) : (w.write bytes).Ok := by
  refine ⟨?_, h.full, h.room⟩
  show w.dealt.flatten ++ (w.buffer ++ (w.stream ++ bytes)) = w.written ++ bytes
  rw [← h.bytes]
  simp only [List.append_assoc]

theorem Wire.Ok.recv {w : Wire} (h : w.Ok) {bytes : Nat}
    (hroom : bytes ≤ msgBufSize - w.buffer.length) : (w.recv bytes).Ok := by
  refine ⟨?_, h.full, ?_⟩
  · show w.dealt.flatten ++ ((w.buffer ++ w.stream.take bytes) ++ w.stream.drop bytes) = w.written
    rw [List.append_assoc, List.take_append_drop]
    exact h.bytes
  · have hbuf := h.room
    show (w.buffer ++ w.stream.take bytes).length ≤ msgBufSize
    rw [List.length_append, List.length_take]
    omega

theorem Wire.Ok.deal {w : Wire} (h : w.Ok) (hfull : w.buffer.length = msgBufSize) :
    w.deal.Ok := by
  refine ⟨?_, ?_, Nat.zero_le _⟩
  · show (w.dealt ++ [w.buffer]).flatten ++ ([] ++ w.stream) = w.written
    rw [← h.bytes, List.flatten_append, List.flatten_singleton, List.nil_append,
      List.append_assoc]
  · intro b hb
    rcases List.mem_append.mp hb with hb | hb
    · exact h.full b hb
    · rw [List.mem_singleton.mp hb]
      exact hfull

/-- What `DealWithRequest` passes on. -/
def Wire.texts (w : Wire) : List Str := (w.dealt.map cString).filter fun m => m ≠ []

/-- The messages in a peer's queue, pushed so far, that came over one link. -/
def Wires.pushed (s : Wires) (p q : PeerID) : List Str :=
  ((s.messages q).filter fun x => x.1 = p).map Prod.snd

theorem texts_deal (w : Wire) :
    w.deal.texts = w.texts ++ (if cString w.buffer = [] then [] else [cString w.buffer]) := by
  show ((w.dealt ++ [w.buffer]).map cString).filter _ = _
  rw [List.map_append, List.filter_append, Wire.texts]
  congr 1
  split
  · next h => simp [h]
  · next h => simp [h]

/-! ## All peers and links -/

section Wires

variable {net : Setup} {s s' : Wires} {l : WireLabel} {p q p' q' : PeerID} {x : Sender} {w : Wire}

@[simp] theorem senders_setWire : (s.setWire p q w).senders = s.senders := rfl

@[simp] theorem wires_setSender : (s.setSender p x).wires = s.wires := rfl

theorem senders_setSender :
    (s.setSender p x).senders p' = if p' = p then x else s.senders p' :=
  Function.update_apply ..

theorem wires_setWire :
    (s.setWire p q w).wires p' q' = if p' = p ∧ q' = q then w else s.wires p' q' := by
  show Function.update s.wires p (Function.update (s.wires p) q w) p' q' = _
  by_cases hp : p' = p
  · subst hp
    rw [Function.update_self, Function.update_apply]
    simp
  · rw [Function.update_of_ne hp, if_neg fun h => hp h.1]

/-- The bytes written on a link and those still to write are the frames for that peer. -/
def Wires.Sent (net : Setup) (s : Wires) (p q : PeerID) : Prop :=
  (s.wires p q).written ++ (s.senders p).missing q =
    ((s.senders p).ordered (net.peerIdToSockfd p) q).flatMap msgFrame

structure Wires.Ok (net : Setup) (s : Wires) : Prop where
  sender : ∀ p, (s.senders p).Ok (net.peerIdToSockfd p)
  fifo : ∀ p, (s.senders p).Fifo
  wire : ∀ p q, (s.wires p q).Ok
  sent : ∀ p q, s.Sent net p q
  pushed : ∀ p q, s.pushed p q ++ (s.wires p q).handling.toList = (s.wires p q).texts

/-- A step of one sending side that writes nothing. -/
theorem Wires.Ok.setSender (h : s.Ok net) (hx : x.Ok (net.peerIdToSockfd p)) (hfifo : x.Fifo)
    (hsent : ∀ q, (s.wires p q).written ++ x.missing q =
      (x.ordered (net.peerIdToSockfd p) q).flatMap msgFrame) : (s.setSender p x).Ok net := by
  refine ⟨fun p' => ?_, fun p' => ?_, h.wire, fun p' q' => ?_, h.pushed⟩
  · rw [senders_setSender]
    split
    · next hp =>
        rw [hp]
        exact hx
    · exact h.sender p'
  · rw [senders_setSender]
    split
    · exact hfifo
    · exact h.fifo p'
  · rw [Wires.Sent, senders_setSender, wires_setSender]
    split
    · next hp =>
        rw [hp]
        exact hsent q'
    · exact h.sent p' q'

/-- A step of one link that writes nothing. -/
theorem Wires.Ok.setWire (h : s.Ok net) (hw : w.Ok)
    (hwritten : w.written = (s.wires p q).written)
    (hpushed : s.pushed p q ++ w.handling.toList = w.texts) : (s.setWire p q w).Ok net := by
  refine ⟨h.sender, h.fifo, fun p' q' => ?_, fun p' q' => ?_, fun p' q' => ?_⟩
  · rw [wires_setWire]
    split
    · exact hw
    · exact h.wire p' q'
  · rw [Wires.Sent, wires_setWire, senders_setWire]
    split
    · next hpq =>
        rw [hpq.1, hpq.2, hwritten]
        exact h.sent p q
    · exact h.sent p' q'
  · rw [wires_setWire]
    split
    · next hpq =>
        rw [hpq.1, hpq.2]
        exact hpushed
    · exact h.pushed p' q'

/-- A step of one sending side that takes no mutex and writes nothing. -/
theorem sent_setPoint {th : SendThread} {point : SendPoint} (h : s.Ok net)
    (hold : ¬((s.senders p).point th).IsSending) (hnew : ¬point.IsSending) {y : Sender}
    (hpoint : y.point = ((s.senders p).setPoint th point).point)
    (horder : y.order = (s.senders p).order) (q : PeerID) :
    (s.wires p q).written ++ y.missing q =
      (y.ordered (net.peerIdToSockfd p) q).flatMap msgFrame := by
  have hmissing : y.missing q = (s.senders p).missing q := by
    rw [← missing_setPoint_quiet hold hnew, Sender.missing, Sender.missing, hpoint]
  rw [hmissing, Sender.ordered, horder]
  exact h.sent p q

theorem ok_lock {th : SendThread} {upstream : PeerID} {job : Sending} (h : s.Ok net)
    (hp : ((s.senders p).point th).sending? upstream = some job)
    (hfree : (s.senders p).sendBufferMutex = false)
    (hmem : ∀ q ∈ job.targets (net.peerIdToSockfd p), q ∈ net.peerIdToSockfd p) :
    (s.setSender p
      { (s.senders p).setPoint th
          (.sending (job.targets (net.peerIdToSockfd p)) job.message 0) with
        sendBufferMutex := true
        order := (s.senders p).order ++ [job] }).Ok net := by
  have hnodup : (net.peerIdToSockfd p).Nodup := (net.topology_nodup p).filter _
  have hnone (th' : SendThread) : ¬((s.senders p).point th').IsSending := by
    intro hs
    have := (h.sender p).held th' hs
    rw [hfree] at this
    cases this
  refine h.setSender ((h.sender p).lock hnodup hp hfree hmem) ?_ fun q => ?_
  · have hfifo := h.fifo p
    unfold Sender.Fifo at hfifo ⊢
    show (s.senders p).items = ((s.senders p).order ++ [job]).filterMap Sending.item? ++
      ((((s.senders p).setPoint th _).point .broadcast).item?.toList ++
        (s.senders p).broadcastQueue)
    rw [hfifo, List.filterMap_append]
    cases th with
    | broadcast =>
        rw [point_setPoint]
        cases hpoint : (s.senders p).point .broadcast <;> rw [hpoint] at hp <;> cases hp
        · simp [SendPoint.item?, Sending.item?]
        · exact absurd hpoint ((h.sender p).relay _)
    | message =>
        rw [point_setPoint_of_ne (by decide)]
        cases hpoint : (s.senders p).point .message <;> rw [hpoint] at hp <;> cases hp
        · exact absurd hpoint ((h.sender p).broadcast _ _)
        · rw [show [Sending.hit _ upstream].filterMap Sending.item? = [] from rfl, List.append_nil]
  · have hbefore : (s.senders p).missing q = [] := by
      rw [Sender.missing, missing_of_not_isSending (hnone _), missing_of_not_isSending (hnone _)]
      rfl
    have hsent := h.sent p q
    rw [Wires.Sent, hbefore, List.append_nil] at hsent
    rw [ordered_lock rfl, List.flatMap_append]
    show _ ++ ((s.senders p).setPoint th _).missing q =
      ((s.senders p).ordered _ q).flatMap msgFrame ++ _
    rw [← hsent]
    rw [missing_setPoint fun th' _ => hnone th', missing_start]
    split <;> simp

theorem ok_send {th : SendThread} {bytes : Nat} {r : PeerID} {rest : List PeerID} {message : Str}
    {sentBytes : Nat} (h : s.Ok net)
    (hp : (s.senders p).point th = .sending (r :: rest) message sentBytes) :
    ((s.setSender p ((s.senders p).setPoint th
        (sendingAfter r rest message (sentBytes + bytes)))).setWire p r
      ((s.wires p r).write (((msgFrame message).drop sentBytes).take bytes))).Ok net := by
  have hpoint := (h.sender p).points th
  rw [hp] at hpoint
  obtain ⟨hnodup, hmem, hm, hlt⟩ := hpoint
  have hsending : ((s.senders p).point th).IsSending := by rw [hp]; trivial
  have hother : ∀ th', th' ≠ th → ¬((s.senders p).point th').IsSending :=
    fun th' hne hs => hne ((h.sender p).alone th' th hs hsending)
  have hafter : (sendingAfter r rest message (sentBytes + bytes)).Ok (net.peerIdToSockfd p) := by
    unfold sendingAfter
    split
    · next hlt' => exact ⟨hnodup, hmem, hm, hlt'⟩
    · exact ⟨(List.nodup_cons.mp hnodup).2, fun q hq => hmem q (List.mem_cons_of_mem _ hq), hm,
        (by decide : 0 < 1024)⟩
  have hkind : ∀ m, sendingAfter r rest message (sentBytes + bytes) ≠ .toRelay m := by
    intro m
    unfold sendingAfter
    split <;> nofun
  have hkind' : ∀ m e, sendingAfter r rest message (sentBytes + bytes) ≠ .toBroadcast m e := by
    intro m e
    unfold sendingAfter
    split <;> nofun
  have hitem : (((s.senders p).setPoint th
      (sendingAfter r rest message (sentBytes + bytes))).point .broadcast).item? =
        ((s.senders p).point .broadcast).item? := by
    cases th with
    | broadcast =>
        rw [point_setPoint, hp]
        unfold sendingAfter
        split <;> rfl
    | message => rw [point_setPoint_of_ne (by decide)]
  have hx : ((s.senders p).setPoint th (sendingAfter r rest message (sentBytes + bytes))).Ok
      (net.peerIdToSockfd p) :=
    (h.sender p).setPoint hafter (fun _ => hsending) (fun _ => hkind) (fun _ => hkind')
  refine ⟨fun p' => ?_, fun p' => ?_, fun p' q' => ?_, fun p' q' => ?_, fun p' q' => ?_⟩
  · rw [senders_setWire, senders_setSender]
    split
    · next hp' =>
        rw [hp']
        exact hx
    · exact h.sender p'
  · rw [senders_setWire, senders_setSender]
    split
    · unfold Sender.Fifo
      rw [hitem]
      exact h.fifo p
    · exact h.fifo p'
  · rw [wires_setWire]
    split
    · exact (h.wire p r).write _
    · exact h.wire p' q'
  · by_cases hp' : p' = p
    · subst hp'
      have hsent := h.sent p' q'
      rw [Wires.Sent, missing_eq hother, hp] at hsent
      rw [Wires.Sent, wires_setWire, senders_setWire, senders_setSender, if_pos rfl,
        missing_setPoint hother, missing_sendingAfter hnodup hm]
      show _ = ((s.senders p').ordered _ q').flatMap msgFrame
      rw [← hsent]
      by_cases hr : q' = r
      · subst hr
        rw [if_pos ⟨rfl, rfl⟩, if_pos rfl, SendPoint.missing, if_pos rfl]
        show (_ ++ _) ++ _ = _
        rw [List.append_assoc, ← List.drop_drop, List.take_append_drop]
      · rw [if_neg fun h => hr h.2, if_neg hr]
        rfl
    · rw [Wires.Sent, wires_setWire, senders_setWire, senders_setSender, if_neg hp',
        if_neg fun h => hp' h.1]
      exact h.sent p' q'
  · rw [wires_setWire]
    split
    · next hpq =>
        rw [hpq.1, hpq.2]
        exact h.pushed p r
    · exact h.pushed p' q'

theorem ok_step (h : s.Ok net) (hm : ∀ message, l.message? = some message → Sendable message)
    (hl : WireMove net s l s') : s'.Ok net := by
  cases hl with
  | broadcast p message exclude =>
      have hx := h.sender p
      refine h.setSender ⟨hx.points, hx.held, hx.alone, hx.relay, hx.broadcast, ?_, hx.sendable,
        hx.reached⟩ ?_ (h.sent p)
      · intro item hitem
        rcases List.mem_append.mp hitem with hitem | hitem
        · exact hx.queue item hitem
        · rw [List.mem_singleton.mp hitem]
          exact hm message rfl
      · have hfifo := h.fifo p
        unfold Sender.Fifo at hfifo ⊢
        dsimp only
        rw [hfifo]
        simp only [List.append_assoc]
  | @takeBroadcast p message exclude rest hp hq =>
      have hx := h.sender p
      have hmem : (message, exclude) ∈ (s.senders p).broadcastQueue := by
        rw [hq]
        exact List.mem_cons_self
      have hset : ((s.senders p).setPoint .broadcast (.toBroadcast message exclude)).Ok
          (net.peerIdToSockfd p) :=
        hx.setPoint (hx.queue _ hmem) (fun h => (nomatch h)) (fun _ _ => nofun)
          (fun h => (nomatch h))
      have hquiet : ¬((s.senders p).point .broadcast).IsSending := by
        rw [hp]
        exact fun h => h
      have hnew : ¬(SendPoint.toBroadcast message exclude).IsSending := fun h => h
      refine h.setSender ⟨hset.points, hset.held, hset.alone, hset.relay, hset.broadcast, ?_,
        hx.sendable, hx.reached⟩ ?_ (sent_setPoint h hquiet hnew rfl rfl)
      · intro item hitem
        refine hx.queue item ?_
        rw [hq]
        exact List.mem_cons_of_mem _ hitem
      · have hfifo := h.fifo p
        unfold Sender.Fifo at hfifo ⊢
        show (s.senders p).items = (s.senders p).order.filterMap Sending.item? ++
          ((((s.senders p).setPoint .broadcast _).point .broadcast).item?.toList ++ rest)
        rw [hfifo, hp, hq, point_setPoint]
        rfl
  | relayQueryHit p message hp =>
      have hset : ((s.senders p).setPoint .message (.toRelay message)).Ok
          (net.peerIdToSockfd p) :=
        (h.sender p).setPoint (hm message rfl) (fun h => (nomatch h)) (fun h => (nomatch h))
          (fun _ _ _ => nofun)
      have hquiet : ¬((s.senders p).point .message).IsSending := by
        rw [hp]
        exact fun h => h
      have hnew : ¬(SendPoint.toRelay message).IsSending := fun h => h
      refine h.setSender hset ?_ (sent_setPoint h hquiet hnew rfl rfl)
      unfold Sender.Fifo
      rw [point_setPoint_of_ne (by decide)]
      exact h.fifo p
  | lock p th upstream hp hfree hmem => exact ok_lock h hp hfree hmem
  | send p th bytes hp hpos hle => exact ok_send h hp
  | @unlock p th message sentBytes hp =>
      have hsending : ((s.senders p).point th).IsSending := by rw [hp]; trivial
      have hother : ∀ th', th' ≠ th → ¬((s.senders p).point th').IsSending :=
        fun th' hne hs => hne ((h.sender p).alone th' th hs hsending)
      refine h.setSender ((h.sender p).unlock hsending) ?_ fun q => ?_
      · have hfifo := h.fifo p
        unfold Sender.Fifo at hfifo ⊢
        show (s.senders p).items = (s.senders p).order.filterMap Sending.item? ++
          ((((s.senders p).setPoint th .idle).point .broadcast).item?.toList ++
            (s.senders p).broadcastQueue)
        rw [hfifo]
        cases th with
        | broadcast =>
            rw [point_setPoint, hp]
            rfl
        | message => rw [point_setPoint_of_ne (by decide)]
      · have hsent := h.sent p q
        rw [Wires.Sent, missing_eq hother, hp] at hsent
        show _ ++ ((s.senders p).setPoint th .idle).missing q = _
        rw [missing_setPoint hother]
        exact hsent
  | recv p q bytes hnone hpos hroom hle =>
      exact h.setWire ((h.wire p q).recv hroom) rfl (h.pushed p q)
  | deal p q hnone hfull =>
      refine h.setWire ((h.wire p q).deal hfull) rfl ?_
      have hpushed := h.pushed p q
      rw [hnone, Option.toList_none, List.append_nil] at hpushed
      rw [texts_deal, ← hpushed]
      show _ ++ (if cString (s.wires p q).buffer = [] then none
        else some (cString (s.wires p q).buffer)).toList = _
      split <;> rfl
  | @handleMessage p q message hsome =>
      refine ⟨h.sender, h.fifo, fun p' q' => ?_, fun p' q' => ?_, fun p' q' => ?_⟩
      · show (((s.setWire p q _).wires) p' q').Ok
        rw [wires_setWire]
        split
        · exact ⟨(h.wire p q).bytes, (h.wire p q).full, (h.wire p q).room⟩
        · exact h.wire p' q'
      · show ((s.setWire p q _).wires p' q').written ++ _ = _
        rw [wires_setWire]
        split
        · next hpq =>
            rw [hpq.1, hpq.2]
            exact h.sent p q
        · exact h.sent p' q'
      · have hpush : ∀ m : Str, ((Function.update s.messages q
            (s.messages q ++ [(p, m)]) q').filter fun x => x.1 = p').map Prod.snd =
              s.pushed p' q' ++ (if p' = p ∧ q' = q then [m] else []) := by
          intro m
          by_cases hq : q' = q
          · subst hq
            rw [Function.update_self, List.filter_append, List.map_append, Wires.pushed]
            congr 1
            by_cases hp' : p' = p
            · rw [if_pos ⟨hp', rfl⟩, List.filter_cons_of_pos (by simp [hp'])]
              rfl
            · rw [if_neg fun h => hp' h.1,
                List.filter_cons_of_neg (by simpa using fun h => hp' h.symm)]
              rfl
          · rw [Function.update_of_ne hq, if_neg fun h => hq h.2, List.append_nil]
            rfl
        show List.map _ (List.filter _ (Function.update s.messages q _ q')) ++
          ((s.setWire p q _).wires p' q').handling.toList = _
        rw [hpush, wires_setWire]
        have hpushed := h.pushed p' q'
        by_cases hpq : p' = p ∧ q' = q
        · obtain ⟨rfl, rfl⟩ := hpq
          rw [hsome] at hpushed
          rw [if_pos ⟨rfl, rfl⟩, if_pos ⟨rfl, rfl⟩]
          show (_ ++ [message]) ++ [] = (s.wires p' q').texts
          rw [List.append_nil]
          exact hpushed
        · rw [if_neg hpq, if_neg hpq, List.append_nil]
          exact hpushed

theorem reachable_ok (h : (wires net).Reachable s) : s.Ok net := by
  refine h.invariant ?_ ?_
  · intro s h
    obtain rfl := h
    refine ⟨fun p => ⟨fun _ => trivial, fun _ h => (nomatch h), fun _ _ h => (nomatch h),
      fun _ => nofun, fun _ _ => nofun, fun _ h => (nomatch h), fun _ h => (nomatch h),
      fun _ h => nomatch h⟩, fun _ => rfl, fun _ _ => ⟨rfl, fun _ h => (nomatch h), Nat.zero_le _⟩,
      fun _ _ => rfl, fun _ _ => rfl⟩
  · intro s l s' _ hs h
    obtain ⟨hm, hstep⟩ := h
    exact ok_step hs hm (wireStep_move hstep)

end Wires

end P2PFileSharing
