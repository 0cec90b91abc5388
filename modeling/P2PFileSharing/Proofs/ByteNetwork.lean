import P2PFileSharing.Lib.Progress
import P2PFileSharing.Proofs.Fits
import P2PFileSharing.Proofs.Wire

/-!
# Bytes carry messages

Between two peers, the bytes in the receiver's buffer, those under way and those a thread has
still to write are the frames of the messages under way, because only one thread of a peer is
ever in a loop over partial writes: `m_send_buffer_mutex` sees to that. A step that moves bytes
moves no message; a section that sends puts its message under way, and `HandleMessage` is where
it arrives.
-/

namespace P2PFileSharing

/-! ## What a step leaves behind -/

inductive ByteMove (net : Setup) (b : ByteNetwork) : ByteLabel → ByteNetwork → Prop
  | run (p : PeerID) (th : Thread) (now : Int) {sec : Section} {rest : List Section}
      {o : Outcome} (halive : b.alive net p) (hnow : IsInt64 now) (hnone : b.sending p th = [])
      (hsec : (b.peers p).threads th = sec :: rest)
      (hfree : sec.locksSendBuffer = true → b.sendBufferTaken p = false)
      (hexec : exec net p now (b.peers p).tables sec = some o) :
      ByteMove net b (.run p th now) (b.commit p th rest o)
  | start (l : Label) {p : PeerID} {th : Thread} {s : Network} (hl : l.start? = some (p, th))
      (hnone : b.sending p th = []) (hstep : step net b.peersOnly l = some s) :
      ByteMove net b (.start l) { b with peers := s.peers, log := s.log }
  | send (p : PeerID) (th : Thread) (bytes : Nat) {tx : Transmission} {rest : List Transmission}
      (halive : b.alive net p) (hsending : b.sending p th = tx :: rest) (hpos : 0 < bytes)
      (hle : bytes ≤ msgBufSize - tx.sentBytes) :
      ByteMove net b (.send p th bytes)
        { b with
          sending := b.setSending p th (tx.advance bytes ++ rest)
          wires := b.setWire p tx.target ((b.wires p tx.target).write
            (((msgFrame tx.message).drop tx.sentBytes).take bytes)) }
  | recv (p q : PeerID) (bytes : Nat) (halive : b.alive net q)
      (hnone : (b.wires p q).handling = none) (hpos : 0 < bytes)
      (hroom : bytes ≤ msgBufSize - (b.wires p q).buffer.length)
      (hle : bytes ≤ (b.wires p q).stream.length) :
      ByteMove net b (.recv p q bytes)
        { b with wires := b.setWire p q ((b.wires p q).recv bytes) }
  | deal (p q : PeerID) (halive : b.alive net q) (hnone : (b.wires p q).handling = none)
      (hfull : (b.wires p q).buffer.length = msgBufSize) :
      ByteMove net b (.deal p q) { b with wires := b.setWire p q (b.wires p q).deal }
  | handleMessage (p q : PeerID) {message : Str} (halive : b.alive net q)
      (hsome : (b.wires p q).handling = some message) :
      ByteMove net b (.handleMessage p q)
        { b with
          peers :=
            Function.update b.peers q
              { b.peers q with messagesQueue := (b.peers q).messagesQueue ++ [message] }
          wires := b.setWire p q { b.wires p q with handling := none }
          log := b.log ++ [(q, .received p message)] }

theorem byteStep_move {net : Setup} {b b' : ByteNetwork} {l : ByteLabel}
    (h : byteStep net b l = some b') : ByteMove net b l b' := by
  cases l with
  | run p th now =>
      dsimp only [byteStep] at h
      split at h
      · next hgo =>
          split at h
          · cases h
          · next sec rest hsec =>
              split at h
              · cases h
              · next hfree =>
                  obtain ⟨o, hexec, rfl⟩ := Option.map_eq_some_iff.mp h
                  refine .run p th now hgo.1 hgo.2.1 hgo.2.2 hsec (fun hlocks => ?_) hexec
                  exact Bool.eq_false_of_not_eq_true fun htaken => hfree ⟨hlocks, htaken⟩
      · cases h
  | start l =>
      dsimp only [byteStep] at h
      split at h
      · cases h
      · next p th hl =>
          split at h
          · next hnone =>
              obtain ⟨s, hstep, rfl⟩ := Option.map_eq_some_iff.mp h
              exact .start l hl (List.isEmpty_iff.mp hnone) hstep
          · cases h
  | send p th bytes =>
      dsimp only [byteStep] at h
      split at h
      · next halive =>
          split at h
          · cases h
          · next tx rest hsending =>
              split at h
              · next hbytes =>
                  cases h
                  exact .send p th bytes halive hsending hbytes.1 hbytes.2
              · cases h
      · cases h
  | recv p q bytes =>
      dsimp only [byteStep] at h
      split at h
      · next hgo =>
          cases h
          exact .recv p q bytes hgo.1 hgo.2.1 hgo.2.2.1 hgo.2.2.2.1 hgo.2.2.2.2
      · cases h
  | deal p q =>
      dsimp only [byteStep] at h
      split at h
      · next hgo =>
          cases h
          exact .deal p q hgo.1 hgo.2.1 hgo.2.2
      · cases h
  | handleMessage p q =>
      dsimp only [byteStep] at h
      split at h
      · next halive =>
          split at h
          · cases h
          · next message hsome =>
              cases h
              exact .handleMessage p q halive hsome
      · cases h

/-- Every such step is possible. -/
theorem ByteMove.step {net : Setup} {b b' : ByteNetwork} {l : ByteLabel}
    (h : ByteMove net b l b') : byteStep net b l = some b' := by
  cases h with
  | run p th now halive hnow hnone hsec hfree hexec =>
      dsimp only [byteStep]
      rw [if_pos ⟨halive, hnow, hnone⟩, hsec]
      dsimp only
      rw [if_neg, hexec]
      · rfl
      · intro htaken
        rw [hfree htaken.1] at htaken
        cases htaken.2
  | start l hl hnone hstep =>
      dsimp only [byteStep]
      rw [hl]
      dsimp only
      rw [hnone, if_pos List.isEmpty_nil, hstep]
      rfl
  | send p th bytes halive hsending hpos hle =>
      dsimp only [byteStep]
      rw [if_pos halive, hsending]
      dsimp only
      rw [if_pos ⟨hpos, hle⟩]
  | recv p q bytes halive hnone hpos hroom hle =>
      dsimp only [byteStep]
      rw [if_pos ⟨halive, hnone, hpos, hroom, hle⟩]
  | deal p q halive hnone hfull =>
      dsimp only [byteStep]
      rw [if_pos ⟨halive, hnone, hfull⟩]
  | handleMessage p q halive hsome =>
      dsimp only [byteStep]
      rw [if_pos halive, hsome]

/-! ## What a thread has still to write -/

section Missing

variable {b : ByteNetwork} {p q : PeerID} {th : Thread}

theorem setSending_apply (b : ByteNetwork) (p : PeerID) (th : Thread) (txs : List Transmission)
    (p' : PeerID) (th' : Thread) :
    b.setSending p th txs p' th' = if p' = p ∧ th' = th then txs else b.sending p' th' := by
  unfold ByteNetwork.setSending
  by_cases hp : p' = p
  · subst hp
    rw [Function.update_self, Function.update_apply]
    simp
  · rw [Function.update_of_ne hp, if_neg fun h => hp h.1]

theorem setWire_apply (b : ByteNetwork) (p q : PeerID) (w : Wire) (p' q' : PeerID) :
    b.setWire p q w p' q' = if p' = p ∧ q' = q then w else b.wires p' q' := by
  unfold ByteNetwork.setWire
  by_cases hp : p' = p
  · subst hp
    rw [Function.update_self, Function.update_apply]
    simp
  · rw [Function.update_of_ne hp, if_neg fun h => hp h.1]

theorem Thread.mem_all (th : Thread) : th ∈ Thread.all := by
  cases th <;> decide

theorem sendBufferTaken_eq_false : b.sendBufferTaken p = false ↔
    (b.peers p).tables.sendBufferMutex = false ∧ ∀ th, b.sending p th = [] := by
  rw [ByteNetwork.sendBufferTaken, Bool.or_eq_false_iff, List.any_eq_false]
  refine and_congr_right fun _ => ⟨fun h th => ?_, fun h th _ => ?_⟩
  · simpa using h th th.mem_all
  · rw [h th]
    simp

/-- If one thread sends, what is missing is what is missing of its frames. -/
theorem missing_of_alone (th : Thread) (h : ∀ th', th' ≠ th → b.sending p th' = [])
    (q : PeerID) :
    b.missing p q = (b.sending p th).flatMap (Transmission.missing q) := by
  cases th <;> simp [ByteNetwork.missing, Thread.all, h]

theorem missing_of_none (h : ∀ th, b.sending p th = []) (q : PeerID) : b.missing p q = [] := by
  rw [missing_of_alone .message fun th' _ => h th', h]
  rfl

theorem missing_congr {b' : ByteNetwork} (h : ∀ th, b'.sending p th = b.sending p th)
    (q : PeerID) : b'.missing p q = b.missing p q := by
  simp only [ByteNetwork.missing, h]

/-- A frame that nothing is out of is missing as a whole. -/
theorem missing_fresh (q : PeerID) (sent : List (PeerID × Str)) :
    (sent.map fun x => (⟨x.1, x.2, 0⟩ : Transmission)).flatMap (Transmission.missing q) =
      ((sent.filter fun x => x.1 = q).map Prod.snd).flatMap msgFrame := by
  induction sent with
  | nil => rfl
  | cons x sent ih =>
      rw [List.map_cons, List.flatMap_cons, ih]
      by_cases hq : x.1 = q
      · rw [List.filter_cons_of_pos (by simpa using hq), List.map_cons, List.flatMap_cons,
          Transmission.missing, if_pos hq, List.drop_zero]
      · rw [List.filter_cons_of_neg (by simpa using hq), Transmission.missing, if_neg hq,
          List.nil_append]

/-- What is out of a frame is no longer missing. -/
theorem missing_advance {tx : Transmission} (h : Sendable tx.message) (q : PeerID) (bytes : Nat) :
    tx.missing q = (if tx.target = q then ((msgFrame tx.message).drop tx.sentBytes).take bytes
      else []) ++ (tx.advance bytes).flatMap (Transmission.missing q) := by
  have hlen := length_msgFrame h
  by_cases hq : tx.target = q
  · rw [Transmission.missing, if_pos hq, if_pos hq, Transmission.advance]
    by_cases hlt : tx.sentBytes + bytes < msgBufSize
    · rw [if_pos hlt, List.flatMap_cons, List.flatMap_nil, List.append_nil, Transmission.missing,
        if_pos hq, ← List.drop_drop, List.take_append_drop]
    · rw [if_neg hlt, List.flatMap_nil, List.append_nil, List.take_of_length_le]
      rw [List.length_drop, hlen]
      omega
  · rw [Transmission.missing, if_neg hq, if_neg hq, Transmission.advance]
    by_cases hlt : tx.sentBytes + bytes < msgBufSize
    · rw [if_pos hlt, List.flatMap_cons, List.flatMap_nil, Transmission.missing, if_neg hq]
      rfl
    · rw [if_neg hlt, List.flatMap_nil]
      rfl

end Missing

/-! ## Who sends -/

section Sections

variable {net : Setup} {s s' : Network} {p : PeerID} {th : Thread} {now : Int} {sec : Section}
  {rest : List Section} {o : Outcome} {l : Label}

/-- Nobody gets past the mutex while the broadcast thread has it. -/
theorem mutex_of_locks {t : Tables} (hlocks : sec.locksSendBuffer = true)
    (hexec : exec net p now t sec = some o) : t.sendBufferMutex = false := by
  refine Bool.eq_false_of_not_eq_true fun hmutex => ?_
  cases sec with
  | lockSendBuffer | relayQueryHit =>
      simp only [exec, lockSendBuffer, relayQueryHit, hmutex, if_true] at hexec
      cases hexec
  | _ => cases hlocks

/-- The broadcast thread has the mutex or is about to take it. -/
theorem locks_of_broadcast (hs : Reachable net s)
    (hsec : (s.peers p).threads .broadcast = sec :: rest)
    (hmutex : (s.peers p).tables.sendBufferMutex = false) : sec.locksSendBuffer = true := by
  have hpoint := reachable_broadcastPoint hs p
  rw [Peer.AtBroadcastPoint, hmutex, hsec] at hpoint
  generalize hsecs : sec :: rest = secs at hpoint
  cases hpoint with
  | idle => cases hsecs
  | waiting message exclude =>
      cases hsecs
      rfl

/-- Who sends has the mutex: the broadcast thread all through its loop over the peers, the
message thread for the section alone. -/
theorem mutex_of_sends (hs : Reachable net s) (hsec : (s.peers p).threads th = sec :: rest)
    (hexec : exec net p now (s.peers p).tables sec = some o) (hsends : o.sent ≠ []) :
    (th = .broadcast ∧ (s.peers p).tables.sendBufferMutex = true ∧
        o.tables.sendBufferMutex = true) ∨
      (th = .message ∧ sec.locksSendBuffer = true) := by
  obtain ⟨a, ha, hR⟩ := exists_flood hs
  obtain ⟨task, e, hw, rfl, hperform, rfl⟩ := hR.exists_perform ha hsec hexec
  obtain ⟨⟨q, text⟩, hx⟩ := List.exists_mem_of_ne_nil _ hsends
  obtain ⟨⟨q, m⟩, hx, -⟩ := List.mem_map.mp hx
  have hsend := perform_sends hperform _ hx
  have hduty := reachable_onDuty ha _ hw p th rfl
  cases hsend with
  | query q x =>
      have hth : th = .broadcast := by
        cases th <;> first | rfl | cases hduty
      subst hth
      refine .inl ⟨rfl, ?_⟩
      have hmutex : (s.peers p).tables.sendBufferMutex = true := by
        by_contra hfree
        have := locks_of_broadcast hs hsec (Bool.eq_false_of_not_eq_true hfree)
        cases this
      refine ⟨hmutex, ?_⟩
      injection hexec with hexec
      rw [← hexec]
      exact hmutex
  | hit h hin => exact .inr ⟨(reachable_holds ha _ hw).2 rfl, rfl⟩

/-- Nothing stops a peer in a section that sends. -/
theorem fault_of_sends (hs : Reachable net s) (hsec : (s.peers p).threads th = sec :: rest)
    (hexec : exec net p now (s.peers p).tables sec = some o) (hsends : o.sent ≠ []) :
    o.tables.fault = (s.peers p).tables.fault := by
  obtain ⟨a, ha, hR⟩ := exists_flood hs
  obtain ⟨task, e, hw, rfl, hperform, rfl⟩ := hR.exists_perform ha hsec hexec
  obtain ⟨⟨q, text⟩, hx⟩ := List.exists_mem_of_ne_nil _ hsends
  obtain ⟨⟨q, m⟩, hx, -⟩ := List.mem_map.mp hx
  have hsend := perform_sends hperform _ hx
  cases hsend with
  | query q x =>
      injection hexec with hexec
      rw [← hexec]
  | hit h hin =>
      simp only [perform] at hperform
      split at hperform
      · cases hperform
      · injection hperform with hperform
        rw [← hperform]
        rfl

/-- A thread that starts on new work finds it with its peer, whatever is on the streams. -/
theorem step_start {p : PeerID} {th : Thread} (hl : l.start? = some (p, th))
    (h : step net s l = some s') (sockets : PeerID → PeerID → List Str) :
    step net { s with sockets := sockets } l = some { s' with sockets := sockets } ∧
      ∀ q, (s'.peers q).tables = (s.peers q).tables := by
  have htables : ∀ (q : PeerID) (x : Peer), x.tables = (s.peers q).tables → ∀ r,
      (Function.update s.peers q x r).tables = (s.peers r).tables := by
    intro q x hx r
    by_cases hr : r = q
    · subst hr
      rw [Function.update_self, hx]
    · rw [Function.update_of_ne hr]
  cases l with
  | run | deliver => cases hl
  | takeMessage q | takeBroadcast q =>
      dsimp only [step] at h ⊢
      split at h
      · next hgo =>
          split at h
          · cases h
          · injection h with h
            subst h
            exact ⟨if_pos hgo, htables _ _ rfl⟩
      · cases h
  | command q cmd | wake q now =>
      dsimp only [step] at h ⊢
      split at h
      · next hgo =>
          injection h with h
          subst h
          exact ⟨if_pos hgo, htables _ _ rfl⟩
      · cases h

theorem exists_flood_fitting (h : (fittingNetwork net).Reachable s) :
    ∃ a, (flood net).Reachable a ∧ Refines s a ∧ a.CommandsFit := by
  refine System.Reachable.refine (R := fun s a => Refines s a ∧ a.CommandsFit) ?_ ?_ h
  · intro s hs
    subst hs
    exact ⟨initialFlood net, rfl, initial_refines net, fun p cmd hmem => by cases hmem⟩
  · intro s a l s' ha hR hl
    obtain ⟨a', hstep, hR'⟩ := step_refines ha hR.1 hl.2
    refine ⟨a', hstep, hR', fun p cmd hmem => ?_⟩
    rcases command_typed hstep hmem with hmem | rfl
    · exact hR.2 p cmd hmem
    · exact hl.1

/-- In a run of commands that fit, every message that is sent can be. -/
theorem sent_fits (hfits : net.Fits) (hs : (fittingNetwork net).Reachable s)
    (halive : s.alive net p) (hnow : IsInt64 now) (hsec : (s.peers p).threads th = sec :: rest)
    (hexec : exec net p now (s.peers p).tables sec = some o) :
    ∀ x ∈ o.sent, Sendable x.2 := by
  obtain ⟨a, ha, hR, hcmd⟩ := exists_flood_fitting hs
  obtain ⟨task, e, hw, rfl, hperform, rfl⟩ := hR.exists_perform ha hsec hexec
  rw [hR.tables] at hperform
  obtain ⟨work, hwork⟩ := Multiset.exists_cons_of_mem hw
  intro x hx
  obtain ⟨y, hy, rfl⟩ := List.mem_map.mp hx
  exact sent_sendable hfits ha hcmd ⟨hR.alive.mp halive, hnow, hwork, hperform⟩ hy

end Sections

/-! ## What the links carry -/

/-- The messages that the bytes from one peer to another are. -/
def ByteNetwork.Carries (b : ByteNetwork) (p q : PeerID) (messages : List Str) : Prop :=
  (∀ message ∈ messages, Sendable message) ∧ b.underWay p q = messages.flatMap msgFrame

structure ByteNetwork.Ok (b : ByteNetwork) : Prop where
  link : ∀ p q, ∃ messages, b.Carries p q messages
  room : ∀ p q, (b.wires p q).buffer.length ≤ msgBufSize
  handling : ∀ p q, (b.wires p q).handling ≠ some []
  alone : ∀ p th th', b.sending p th ≠ [] → b.sending p th' ≠ [] → th' = th
  /-- In its loop over partial writes the broadcast thread has the mutex and the message
  thread is still in its section. -/
  mutex : ∀ p th, b.sending p th ≠ [] →
    ((b.peers p).tables.sendBufferMutex = true ↔ th = .broadcast)
  frames : ∀ p th, ∀ tx ∈ b.sending p th, tx.sentBytes < msgBufSize ∧ Sendable tx.message

section Links

variable {net : Setup} {b b' : ByteNetwork} {p q : PeerID} {th : Thread} {messages : List Str}

theorem length_of_frames (h : ∀ message ∈ messages, Sendable message) :
    ∀ frame ∈ messages.map msgFrame, frame.length = msgBufSize := by
  intro frame hframe
  obtain ⟨message, hmem, rfl⟩ := List.mem_map.mp hframe
  exact length_msgFrame (h message hmem)

theorem cString_msgFrame {message : Str} (h : Sendable message) :
    cString (msgFrame message) = message := unpad_pad h.2.1

/-- **The bytes on a link are its messages.** -/
theorem ByteNetwork.Carries.sockets (h : b.Carries p q messages) :
    b.messages.sockets p q = (b.wires p q).handling.toList ++ messages := by
  show _ ++ (wholeFrames msgBufSize (b.underWay p q)).map cString = _
  rw [h.2, List.flatMap_def, ← List.append_nil (List.flatten _),
    wholeFrames_eq (length_of_frames h.1) (by decide), List.map_map]
  congr 1
  refine (List.map_congr_left fun message hmem => ?_).trans (List.map_id messages)
  exact cString_msgFrame (h.1 message hmem)

theorem ByteNetwork.Carries.congr (h : b.Carries p q messages)
    (heq : b'.underWay p q = b.underWay p q) : b'.Carries p q messages :=
  ⟨h.1, heq.trans h.2⟩

/-- Bytes that only move on are the same messages. -/
theorem messages_congr (hpeers : b'.peers = b.peers) (hlog : b'.log = b.log)
    (hhandling : ∀ p q, (b'.wires p q).handling = (b.wires p q).handling)
    (hunderWay : ∀ p q, b'.underWay p q = b.underWay p q) : b'.messages = b.messages := by
  unfold ByteNetwork.messages
  simp only [hpeers, hlog, hhandling, hunderWay]

/-- A thread has not more to send than before, and others have the same. -/
theorem ByteNetwork.Ok.keeps (h : b.Ok) (hpeers : b'.peers = b.peers)
    (hsending : ∀ p th, b'.sending p th ≠ [] → b.sending p th ≠ []) :
    (∀ p th th', b'.sending p th ≠ [] → b'.sending p th' ≠ [] → th' = th) ∧
      ∀ p th, b'.sending p th ≠ [] →
        ((b'.peers p).tables.sendBufferMutex = true ↔ th = .broadcast) := by
  refine ⟨fun p th th' hth hth' => h.alone p th th' (hsending p th hth) (hsending p th' hth'), ?_⟩
  intro p th hth
  rw [hpeers]
  exact h.mutex p th (hsending p th hth)

/-- Only one thread of a peer is in a loop over partial writes. -/
theorem ByteNetwork.Ok.others (h : b.Ok) (hth : b.sending p th ≠ []) {th' : Thread}
    (hne : th' ≠ th) : b.sending p th' = [] := by
  by_contra hth'
  exact hne (h.alone p th th' hth hth')

/-- What `send` takes is the front of what was missing. -/
theorem missing_send (h : b.Ok) {bytes : Nat} {tx : Transmission} {rest : List Transmission}
    (hsending : b.sending p th = tx :: rest)
    (hb' : b'.sending = b.setSending p th (tx.advance bytes ++ rest)) (p' q' : PeerID) :
    b.missing p' q' = (if p' = p ∧ q' = tx.target then
      ((msgFrame tx.message).drop tx.sentBytes).take bytes else []) ++ b'.missing p' q' := by
  have htx := h.frames p th tx (by rw [hsending]; exact List.mem_cons_self)
  have hth : b.sending p th ≠ [] := by
    rw [hsending]
    exact List.cons_ne_nil _ _
  by_cases hp : p' = p
  · subst hp
    have hself : b'.sending p' th = tx.advance bytes ++ rest := by
      rw [hb', setSending_apply, if_pos ⟨rfl, rfl⟩]
    have hothers : ∀ th', th' ≠ th → b'.sending p' th' = [] := by
      intro th' hne
      rw [hb', setSending_apply, if_neg fun heq => hne heq.2]
      exact h.others hth hne
    rw [missing_of_alone th hothers, missing_of_alone th fun th' hne => h.others hth hne, hself,
      hsending, List.flatMap_cons, List.flatMap_append, missing_advance htx.2 q' bytes,
      List.append_assoc]
    congr 1
    by_cases hq : q' = tx.target
    · rw [if_pos hq.symm, if_pos ⟨rfl, hq⟩]
    · rw [if_neg fun heq => hq heq.symm, if_neg fun heq => hq heq.2]
  · rw [if_neg fun heq => hp heq.1, List.nil_append]
    refine missing_congr (fun th' => ?_) q'
    rw [hb', setSending_apply, if_neg fun heq => hp heq.1]

/-- `send` takes bytes out of a thread's frame onto the stream. -/
theorem ByteNetwork.Ok.send (h : b.Ok) {bytes : Nat} {tx : Transmission}
    {rest : List Transmission} (hsending : b.sending p th = tx :: rest)
    (hb' : b' = { b with
      sending := b.setSending p th (tx.advance bytes ++ rest)
      wires := b.setWire p tx.target ((b.wires p tx.target).write
        (((msgFrame tx.message).drop tx.sentBytes).take bytes)) }) :
    b'.Ok ∧ b'.messages = b.messages := by
  have htx := h.frames p th tx (by rw [hsending]; exact List.mem_cons_self)
  have hsend : ∀ p' th', b'.sending p' th' =
      if p' = p ∧ th' = th then tx.advance bytes ++ rest else b.sending p' th' := by
    intro p' th'
    rw [hb']
    exact setSending_apply ..
  have hwire : ∀ p' q', b'.wires p' q' = if p' = p ∧ q' = tx.target then
      (b.wires p tx.target).write (((msgFrame tx.message).drop tx.sentBytes).take bytes)
      else b.wires p' q' := by
    intro p' q'
    rw [hb']
    exact setWire_apply ..
  have hfewer : ∀ p' th', b'.sending p' th' ≠ [] → b.sending p' th' ≠ [] := by
    intro p' th' hne
    rw [hsend] at hne
    split at hne
    · next heq =>
        rw [heq.1, heq.2, hsending]
        exact List.cons_ne_nil _ _
    · exact hne
  have hunderWay : ∀ p' q', b'.underWay p' q' = b.underWay p' q' := by
    intro p' q'
    unfold ByteNetwork.underWay
    have hsent : b'.sending = b.setSending p th (tx.advance bytes ++ rest) := by rw [hb']
    rw [missing_send h hsending hsent p' q', hwire]
    split
    · next heq =>
        rw [heq.1, heq.2]
        simp only [Wire.write, List.append_assoc]
    · rfl
  have hsame : ∀ p' q', (b'.wires p' q').handling = (b.wires p' q').handling ∧
      (b'.wires p' q').buffer = (b.wires p' q').buffer := by
    intro p' q'
    rw [hwire]
    split
    · next heq =>
        rw [heq.1, heq.2]
        exact ⟨rfl, rfl⟩
    · exact ⟨rfl, rfl⟩
  have hpeers : b'.peers = b.peers := by rw [hb']
  have hkeeps := h.keeps hpeers hfewer
  refine ⟨⟨fun p' q' => ?_, fun p' q' => ?_, fun p' q' => ?_, hkeeps.1, hkeeps.2, ?_⟩,
    messages_congr hpeers (by rw [hb']) (fun p' q' => (hsame p' q').1) hunderWay⟩
  · obtain ⟨messages, hmessages⟩ := h.link p' q'
    exact ⟨messages, hmessages.congr (hunderWay p' q')⟩
  · rw [(hsame p' q').2]
    exact h.room p' q'
  · rw [(hsame p' q').1]
    exact h.handling p' q'
  · intro p' th' tx' hmem
    rw [hsend] at hmem
    split at hmem
    · rcases List.mem_append.mp hmem with hmem | hmem
      · unfold Transmission.advance at hmem
        split at hmem
        · next hlt =>
            rw [List.mem_singleton.mp hmem]
            exact ⟨hlt, htx.2⟩
        · cases hmem
      · exact h.frames p th tx' (by rw [hsending]; exact List.mem_cons_of_mem _ hmem)
    · exact h.frames p' th' tx' hmem

/-- What does not touch a link leaves it as it is. -/
theorem underWay_setWire {w : Wire} (hsending : b'.sending = b.sending)
    (hwires : b'.wires = b.setWire p q w) {p' q' : PeerID} (hne : ¬(p' = p ∧ q' = q)) :
    b'.underWay p' q' = b.underWay p' q' := by
  unfold ByteNetwork.underWay
  rw [hwires, setWire_apply, if_neg hne, missing_congr (b := b) fun th => by rw [hsending]]

theorem underWay_setWire_self {w : Wire} (hsending : b'.sending = b.sending)
    (hwires : b'.wires = b.setWire p q w) :
    b'.underWay p q = w.buffer ++ (w.stream ++ b.missing p q) := by
  unfold ByteNetwork.underWay
  rw [hwires, setWire_apply, if_pos ⟨rfl, rfl⟩, missing_congr (b := b) fun th => by rw [hsending]]

/-- Only one end of one link changes. -/
theorem ByteNetwork.Ok.setWire (h : b.Ok) {w : Wire} (hsending : b'.sending = b.sending)
    (hmutex : ∀ p, (b'.peers p).tables.sendBufferMutex = (b.peers p).tables.sendBufferMutex)
    (hwires : b'.wires = b.setWire p q w) (hroom : w.buffer.length ≤ msgBufSize)
    (hhandling : w.handling ≠ some []) (hcarries : b'.Carries p q messages) : b'.Ok where
  link p' q' := by
    by_cases heq : p' = p ∧ q' = q
    · rw [heq.1, heq.2]
      exact ⟨messages, hcarries⟩
    · obtain ⟨messages', hmessages'⟩ := h.link p' q'
      exact ⟨messages', hmessages'.congr (underWay_setWire hsending hwires heq)⟩
  room p' q' := by
    rw [hwires, setWire_apply]
    split
    · exact hroom
    · exact h.room p' q'
  handling p' q' := by
    rw [hwires, setWire_apply]
    split
    · exact hhandling
    · exact h.handling p' q'
  alone p' th th' := by
    rw [hsending]
    exact h.alone p' th th'
  mutex p' th := by
    rw [hsending, hmutex]
    exact h.mutex p' th
  frames p' th := by
    rw [hsending]
    exact h.frames p' th

/-- The other links carry what they carried. -/
theorem sockets_setWire {w : Wire} (hsending : b'.sending = b.sending)
    (hwires : b'.wires = b.setWire p q w) {p' q' : PeerID} (hne : ¬(p' = p ∧ q' = q)) :
    b'.messages.sockets p' q' = b.messages.sockets p' q' := by
  show (b'.wires p' q').handling.toList ++
    (wholeFrames msgBufSize (b'.underWay p' q')).map cString = _
  rw [underWay_setWire hsending hwires hne, hwires, setWire_apply, if_neg hne]
  rfl

/-- `recv` takes bytes off the stream into the buffer. -/
theorem ByteNetwork.Ok.recv (h : b.Ok) {bytes : Nat}
    (hroom : bytes ≤ msgBufSize - (b.wires p q).buffer.length)
    (hb' : b' = { b with wires := b.setWire p q ((b.wires p q).recv bytes) }) :
    b'.Ok ∧ b'.messages = b.messages := by
  have hsending : b'.sending = b.sending := by rw [hb']
  have hwires : b'.wires = b.setWire p q ((b.wires p q).recv bytes) := by rw [hb']
  have hpeers : b'.peers = b.peers := by rw [hb']
  have hself : b'.underWay p q = b.underWay p q := by
    rw [underWay_setWire_self hsending hwires]
    show ((b.wires p q).buffer ++ (b.wires p q).stream.take bytes) ++
      ((b.wires p q).stream.drop bytes ++ _) = _
    rw [List.append_assoc, ← List.append_assoc (List.take _ _), List.take_append_drop]
    rfl
  have hunderWay : ∀ p' q', b'.underWay p' q' = b.underWay p' q' := by
    intro p' q'
    by_cases heq : p' = p ∧ q' = q
    · rw [heq.1, heq.2]
      exact hself
    · exact underWay_setWire hsending hwires heq
  obtain ⟨messages, hmessages⟩ := h.link p q
  refine ⟨h.setWire hsending (fun p' => by rw [hpeers]) hwires ?_ (h.handling p q)
    (hmessages.congr hself), messages_congr hpeers (by rw [hb']) (fun p' q' => ?_) hunderWay⟩
  · show ((b.wires p q).buffer ++ (b.wires p q).stream.take bytes).length ≤ msgBufSize
    have := h.room p q
    rw [List.length_append, List.length_take]
    omega
  · rw [hwires, setWire_apply]
    split
    · next heq =>
        rw [heq.1, heq.2]
        rfl
    · rfl

/-- A full buffer is the first frame on its link, and the text in it the first message. -/
theorem ByteNetwork.Ok.full (h : b.Ok) (hfull : (b.wires p q).buffer.length = msgBufSize) :
    ∃ message messages, b.Carries p q (message :: messages) ∧
      cString (b.wires p q).buffer = message ∧
      (b.wires p q).stream ++ b.missing p q = messages.flatMap msgFrame := by
  obtain ⟨messages, hmessages⟩ := h.link p q
  have hbytes : (b.wires p q).buffer ++ ((b.wires p q).stream ++ b.missing p q) =
      messages.flatMap msgFrame := hmessages.2
  cases messages with
  | nil =>
      have hlen := congrArg List.length hbytes
      rw [List.length_append, hfull] at hlen
      exact absurd hlen (by simp [msgBufSize])
  | cons message messages =>
      have hmessage := hmessages.1 message List.mem_cons_self
      rw [List.flatMap_cons] at hbytes
      obtain ⟨hbuffer, hrest⟩ :=
        List.append_inj hbytes (hfull.trans (length_msgFrame hmessage).symm)
      refine ⟨message, messages, hmessages, ?_, hrest⟩
      rw [hbuffer, cString_msgFrame hmessage]

/-- `DealWithRequest` finds the message in the buffer. -/
theorem ByteNetwork.Ok.deal (h : b.Ok) (hnone : (b.wires p q).handling = none)
    (hfull : (b.wires p q).buffer.length = msgBufSize)
    (hb' : b' = { b with wires := b.setWire p q (b.wires p q).deal }) :
    b'.Ok ∧ b'.messages = b.messages := by
  have hsending : b'.sending = b.sending := by rw [hb']
  have hwires : b'.wires = b.setWire p q (b.wires p q).deal := by rw [hb']
  have hpeers : b'.peers = b.peers := by rw [hb']
  obtain ⟨message, messages, hold, hmessage, hrest⟩ := h.full hfull
  have hsendable := hold.1 message List.mem_cons_self
  have hhandling : (b.wires p q).deal.handling = some message := by
    show (if cString (b.wires p q).buffer = [] then none else some _) = _
    rw [hmessage, if_neg hsendable.1]
  have hnew : b'.Carries p q messages := by
    refine ⟨fun m hm => hold.1 m (List.mem_cons_of_mem _ hm), ?_⟩
    rw [underWay_setWire_self hsending hwires]
    exact hrest
  have hok := h.setWire hsending (fun p' => by rw [hpeers]) hwires (Nat.zero_le _)
    (by rw [hhandling]; exact fun heq => hsendable.1 (Option.some.inj heq)) hnew
  refine ⟨hok, ?_⟩
  have hsockets : b'.messages.sockets = b.messages.sockets := by
    funext p' q'
    by_cases heq : p' = p ∧ q' = q
    · rw [heq.1, heq.2, hnew.sockets, hold.sockets, hnone, hwires, setWire_apply,
        if_pos ⟨rfl, rfl⟩, hhandling]
      rfl
    · exact sockets_setWire hsending hwires heq
  show Network.mk b'.peers b'.messages.sockets b'.log = _
  rw [hsockets, hb']
  rfl

/-- `HandleMessage` is where the message arrives. -/
theorem ByteNetwork.Ok.handleMessage (h : b.Ok) {message : Str} (halive : b.alive net q)
    (hsome : (b.wires p q).handling = some message)
    (hb' : b' = { b with
      peers :=
        Function.update b.peers q
          { b.peers q with messagesQueue := (b.peers q).messagesQueue ++ [message] }
      wires := b.setWire p q { b.wires p q with handling := none }
      log := b.log ++ [(q, .received p message)] }) :
    b'.Ok ∧ step net b.messages (.deliver p q) = some b'.messages := by
  have hsending : b'.sending = b.sending := by rw [hb']
  have hwires : b'.wires = b.setWire p q { b.wires p q with handling := none } := by rw [hb']
  have hmutex : ∀ p', (b'.peers p').tables.sendBufferMutex =
      (b.peers p').tables.sendBufferMutex := by
    intro p'
    rw [hb']
    show (Function.update b.peers q _ p').tables.sendBufferMutex = _
    by_cases hp : p' = q
    · subst hp
      rw [Function.update_self]
    · rw [Function.update_of_ne hp]
  obtain ⟨messages, hold⟩ := h.link p q
  have hnew : b'.Carries p q messages := by
    refine hold.congr ?_
    rw [underWay_setWire_self hsending hwires]
    rfl
  refine ⟨h.setWire hsending hmutex hwires (h.room p q) nofun hnew, ?_⟩
  have hsocket : b.messages.sockets p q = message :: messages := by
    rw [hold.sockets, hsome]
    rfl
  have hmessage : message ≠ [] := fun hnil => h.handling p q (hnil ▸ hsome)
  have hsockets : b'.messages.sockets =
      fun p' q' => if p' = p ∧ q' = q then messages else b.messages.sockets p' q' := by
    funext p' q'
    split
    · next heq =>
        rw [heq.1, heq.2, hnew.sockets, hwires, setWire_apply, if_pos ⟨rfl, rfl⟩]
        rfl
    · next hne => exact sockets_setWire hsending hwires hne
  dsimp only [step]
  rw [if_pos (show b.messages.alive net q from halive), hsocket]
  dsimp only
  rw [if_neg hmessage, ← hsockets, hb']
  rfl

/-- Before a section that sends, nobody of its peer is in a loop over partial writes. -/
theorem ByteNetwork.Ok.quiet (h : b.Ok) (hs : Reachable net b.messages) {now : Int}
    {sec : Section} {rest : List Section} {o : Outcome} (hnone : b.sending p th = [])
    (hsec : (b.peers p).threads th = sec :: rest)
    (hfree : sec.locksSendBuffer = true → b.sendBufferTaken p = false)
    (hexec : exec net p now (b.peers p).tables sec = some o) (hsends : o.sent ≠ []) :
    (∀ th', b.sending p th' = []) ∧ (o.tables.sendBufferMutex = true ↔ th = .broadcast) := by
  rcases mutex_of_sends hs hsec hexec hsends with ⟨hth, hmutex, hmutex'⟩ | ⟨hth, hlocks⟩
  · refine ⟨fun th' => ?_, iff_of_true hmutex' hth⟩
    by_contra hth'
    rw [(h.mutex p th' hth').mp hmutex, ← hth] at hth'
    exact hth' hnone
  · obtain ⟨hmutex, hquiet⟩ := sendBufferTaken_eq_false.mp (hfree hlocks)
    have hne : th ≠ .broadcast := by
      rw [hth]
      decide
    obtain ⟨a, ha, hR⟩ := exists_flood hs
    refine ⟨hquiet, iff_of_false ?_ hne⟩
    rw [exec_mutex ha hR hne hsec hexec]
    show (b.peers p).tables.sendBufferMutex ≠ true
    rw [hmutex]
    decide

/-- Around a section that sends nothing, whoever of its peer is sending has the mutex as
before. -/
theorem ByteNetwork.Ok.mutex_run (h : b.Ok) (hs : Reachable net b.messages) {now : Int}
    {sec : Section} {rest : List Section} {o : Outcome} (hnone : b.sending p th = [])
    (hsec : (b.peers p).threads th = sec :: rest)
    (hfree : sec.locksSendBuffer = true → b.sendBufferTaken p = false)
    (hexec : exec net p now (b.peers p).tables sec = some o) {th' : Thread}
    (hth' : b.sending p th' ≠ []) :
    o.tables.sendBufferMutex = true ↔ th' = .broadcast := by
  by_cases hth : th = .broadcast
  · -- The broadcast thread itself is not sending, so it waits for the mutex.
    subst hth
    have hne : th' ≠ .broadcast := fun heq => hth' (heq ▸ hnone)
    have hmutex : (b.peers p).tables.sendBufferMutex = false :=
      Bool.eq_false_of_not_eq_true fun hmutex => hne ((h.mutex p th' hth').mp hmutex)
    have hlocks := locks_of_broadcast hs hsec hmutex
    exact absurd ((sendBufferTaken_eq_false.mp (hfree hlocks)).2 th') hth'
  · obtain ⟨a, ha, hR⟩ := exists_flood hs
    rw [exec_mutex ha hR hth hsec hexec]
    exact h.mutex p th' hth'

/-- **A section puts its messages under way.** -/
theorem ByteNetwork.Ok.run (h : b.Ok) (hfits : net.Fits)
    (hs : (fittingNetwork net).Reachable b.messages) {now : Int} {sec : Section}
    {rest : List Section} {o : Outcome} (halive : b.alive net p) (hnow : IsInt64 now)
    (hnone : b.sending p th = []) (hsec : (b.peers p).threads th = sec :: rest)
    (hfree : sec.locksSendBuffer = true → b.sendBufferTaken p = false)
    (hexec : exec net p now (b.peers p).tables sec = some o) :
    (b.commit p th rest o).Ok ∧
      step net b.messages (.run p th now) = some (b.commit p th rest o).messages := by
  have hsendable := sent_fits hfits hs halive hnow hsec hexec
  replace hs : Reachable net b.messages := System.Reachable.of_restrict hs
  have hsending : ∀ p' th', (b.commit p th rest o).sending p' th' =
      if p' = p ∧ th' = th then o.sent.map fun x => ⟨x.1, x.2, 0⟩ else b.sending p' th' :=
    fun p' th' => setSending_apply ..
  have hmutex : ∀ p', ((b.commit p th rest o).peers p').tables.sendBufferMutex =
      if p' = p then o.tables.sendBufferMutex else (b.peers p').tables.sendBufferMutex := by
    intro p'
    show (Function.update b.peers p _ p').tables.sendBufferMutex = _
    by_cases hp : p' = p
    · subst hp
      rw [Function.update_self, if_pos rfl]
    · rw [Function.update_of_ne hp, if_neg hp]
  -- What is sent comes after what is under way, because nobody else is sending.
  have hunderWay : ∀ p' q', (b.commit p th rest o).underWay p' q' = b.underWay p' q' ++
      (if p' = p then ((o.sent.filter fun x => x.1 = q').map Prod.snd).flatMap msgFrame
        else []) := by
    intro p' q'
    unfold ByteNetwork.underWay
    rw [List.append_assoc, List.append_assoc]
    congr 2
    by_cases hp : p' = p
    · subst hp
      rw [if_pos rfl]
      by_cases hsends : o.sent = []
      · rw [hsends, List.filter_nil, List.map_nil, List.flatMap_nil, List.append_nil]
        refine missing_congr (fun th' => ?_) q'
        rw [hsending]
        split
        · next heq =>
            rw [heq.2, hnone, hsends]
            rfl
        · rfl
      · have hquiet := (h.quiet hs hnone hsec hfree hexec hsends).1
        rw [missing_of_none hquiet, List.nil_append, missing_of_alone th ?_ q', hsending,
          if_pos ⟨rfl, rfl⟩, missing_fresh]
        intro th' hne
        rw [hsending, if_neg fun heq => hne heq.2, hquiet]
    · rw [if_neg hp, List.append_nil]
      refine missing_congr (fun th' => ?_) q'
      rw [hsending, if_neg fun heq => hp heq.1]
  have hcarries : ∀ p' q' messages, b.Carries p' q' messages →
      (b.commit p th rest o).Carries p' q' (messages ++
        if p' = p then (o.sent.filter fun x => x.1 = q').map Prod.snd else []) := by
    intro p' q' messages hmessages
    refine ⟨fun message hmem => ?_, ?_⟩
    · rcases List.mem_append.mp hmem with hmem | hmem
      · exact hmessages.1 message hmem
      · split at hmem
        · obtain ⟨x, hx, rfl⟩ := List.mem_map.mp hmem
          exact hsendable x (List.mem_filter.mp hx).1
        · cases hmem
    · rw [hunderWay, hmessages.2, List.flatMap_append]
      split <;> rfl
  refine ⟨⟨fun p' q' => ?_, h.room, h.handling, ?_, ?_, ?_⟩, ?_⟩
  · obtain ⟨messages, hmessages⟩ := h.link p' q'
    exact ⟨_, hcarries p' q' messages hmessages⟩
  · intro p' th₁ th₂ h₁ h₂
    rw [hsending] at h₁ h₂
    split at h₁
    · next heq₁ =>
        obtain ⟨rfl, rfl⟩ := heq₁
        split at h₂
        · next heq₂ => exact heq₂.2
        · have hsends : o.sent ≠ [] := fun hnil => h₁ (by rw [hnil]; rfl)
          exact absurd ((h.quiet hs hnone hsec hfree hexec hsends).1 th₂) h₂
    · next hne₁ =>
        split at h₂
        · next heq₂ =>
            obtain ⟨rfl, rfl⟩ := heq₂
            have hsends : o.sent ≠ [] := fun hnil => h₂ (by rw [hnil]; rfl)
            exact absurd ((h.quiet hs hnone hsec hfree hexec hsends).1 th₁) h₁
        · exact h.alone p' th₁ th₂ h₁ h₂
  · intro p' th' hth'
    rw [hsending] at hth'
    rw [hmutex]
    by_cases hp : p' = p
    · subst hp
      rw [if_pos rfl]
      split at hth'
      · next heq =>
          have hsends : o.sent ≠ [] := fun hnil => hth' (by rw [hnil]; rfl)
          rw [heq.2]
          exact (h.quiet hs hnone hsec hfree hexec hsends).2
      · exact h.mutex_run hs hnone hsec hfree hexec hth'
    · rw [if_neg hp]
      rw [if_neg fun heq => hp heq.1] at hth'
      exact h.mutex p' th' hth'
  · intro p' th' tx hmem
    rw [hsending] at hmem
    split at hmem
    · obtain ⟨x, hx, rfl⟩ := List.mem_map.mp hmem
      exact ⟨show 0 < msgBufSize by decide, hsendable x hx⟩
    · exact h.frames p' th' tx hmem
  · rw [step_run_of (s := b.messages) halive hnow hsec hexec]
    have hsockets : (P2PFileSharing.commit b.messages p th rest o).sockets =
        (b.commit p th rest o).messages.sockets := by
      funext p' q'
      obtain ⟨messages, hmessages⟩ := h.link p' q'
      rw [(hcarries p' q' messages hmessages).sockets]
      show (if p' = p then b.messages.sockets p' q' ++ _ else b.messages.sockets p' q') = _
      rw [hmessages.sockets]
      split
      · exact List.append_assoc ..
      · rw [List.append_nil]
        rfl
    show some (Network.mk _ (P2PFileSharing.commit b.messages p th rest o).sockets _) = _
    rw [hsockets]
    rfl

/-- New work for a thread is nothing new on the links. -/
theorem ByteNetwork.Ok.start (h : b.Ok) {l : Label} {s : Network} {p : PeerID} {th : Thread}
    (hl : l.start? = some (p, th)) (hstep : P2PFileSharing.step net b.peersOnly l = some s) :
    ByteNetwork.Ok { b with peers := s.peers, log := s.log } ∧
      P2PFileSharing.step net b.messages l =
        some (ByteNetwork.messages { b with peers := s.peers, log := s.log }) := by
  obtain ⟨hsame, htables⟩ := step_start hl hstep b.messages.sockets
  refine ⟨⟨h.link, h.room, h.handling, h.alone, fun p' th' hth' => ?_, h.frames⟩, hsame⟩
  show (s.peers p').tables.sendBufferMutex = true ↔ _
  rw [htables]
  exact h.mutex p' th' hth'

end Links

/-! ## The run as a whole -/

/-- What a step of the bytes is a step of. -/
def ByteLabel.label? : ByteLabel → Option Label
  | .run p th now => some (.run p th now)
  | .start l => some l
  | .handleMessage p q => some (.deliver p q)
  | .send _ _ _ | .recv _ _ _ | .deal _ _ => none

section Runs

variable {net : Setup} {b b' : ByteNetwork} {s s' : Network} {l : ByteLabel} {k : Label}

theorem ByteLabel.Fits.label (h : l.Fits) (hk : l.label? = some k) : k.Fits := by
  cases l with
  | start => cases hk; exact h
  | run | handleMessage => cases hk; trivial
  | _ => cases hk

/-- **A step that moves bytes moves no message; every other one is a step of the messages.** -/
theorem byteStep_simulates (hfits : net.Fits) (h : b.Ok)
    (hs : (fittingNetwork net).Reachable b.messages) (hstep : byteStep net b l = some b') :
    b'.Ok ∧ (l.label? = none → b'.messages = b.messages) ∧
      ∀ k, l.label? = some k → step net b.messages k = some b'.messages := by
  have hmove := byteStep_move hstep
  cases hmove with
  | run p th now halive hnow hnone hsec hfree hexec =>
      obtain ⟨hok, hrun⟩ := h.run hfits hs halive hnow hnone hsec hfree hexec
      exact ⟨hok, nofun, fun k hk => by cases hk; exact hrun⟩
  | start l hl hnone hstart =>
      obtain ⟨hok, hrun⟩ := h.start hl hstart
      exact ⟨hok, nofun, fun k hk => by cases hk; exact hrun⟩
  | send p th bytes halive hsending hpos hle =>
      obtain ⟨hok, hsame⟩ := h.send hsending rfl
      exact ⟨hok, fun _ => hsame, fun k hk => by cases hk⟩
  | recv p q bytes halive hnone hpos hroom hle =>
      obtain ⟨hok, hsame⟩ := h.recv hroom rfl
      exact ⟨hok, fun _ => hsame, fun k hk => by cases hk⟩
  | deal p q halive hnone hfull =>
      obtain ⟨hok, hsame⟩ := h.deal hnone hfull rfl
      exact ⟨hok, fun _ => hsame, fun k hk => by cases hk⟩
  | handleMessage p q halive hsome =>
      obtain ⟨hok, hdeliver⟩ := h.handleMessage halive hsome rfl
      exact ⟨hok, nofun, fun k hk => by cases hk; exact hdeliver⟩

theorem initialByteNetwork_ok (net : Setup) : (initialByteNetwork net).Ok where
  link _ _ := ⟨[], nofun, rfl⟩
  room _ _ := Nat.zero_le _
  handling _ _ := nofun
  alone _ _ _ h := absurd rfl h
  mutex _ _ h := absurd rfl h
  frames _ _ _ h := by cases h

theorem messages_initial (net : Setup) :
    (initialByteNetwork net).messages = initialNetwork net := by
  have hsockets : (initialByteNetwork net).messages.sockets = fun _ _ => [] := by
    funext p q
    have hnone : (initialByteNetwork net).Carries p q [] := ⟨nofun, rfl⟩
    rw [hnone.sockets]
    rfl
  show Network.mk _ (initialByteNetwork net).messages.sockets _ = _
  rw [hsockets]
  rfl

/-- In every run the bytes carry the messages of a run. -/
theorem byteReachable_ok (hfits : net.Fits) (h : (byteNetwork net).Reachable b) :
    b.Ok ∧ (fittingNetwork net).Reachable b.messages := by
  refine System.Reachable.invariant
    (I := fun b => b.Ok ∧ (fittingNetwork net).Reachable b.messages) ?_ ?_ h
  · intro b hb
    subst hb
    exact ⟨initialByteNetwork_ok net, .init (messages_initial net)⟩
  · intro b l b' _ ih hl
    obtain ⟨hok, hsame, hstep⟩ := byteStep_simulates hfits ih.1 ih.2 hl.2
    refine ⟨hok, ?_⟩
    cases hk : l.label? with
    | none =>
        rw [hsame hk]
        exact ih.2
    | some k => exact .step k ih.2 ⟨hl.1.label hk, hstep k hk⟩

/-! ## Every run of messages is one of bytes -/

/-- Nothing is cut up anywhere. -/
structure ByteNetwork.Quiet (b : ByteNetwork) : Prop where
  sending : ∀ p th, b.sending p th = []
  buffer : ∀ p q, (b.wires p q).buffer = []
  handling : ∀ p q, (b.wires p q).handling = none

/-- A thread can send all it has before anyone else goes on. -/
theorem exists_sent (hfits : net.Fits) {p : PeerID} {th : Thread}
    (hb : (byteNetwork net).Reachable b)
    (halive : b.alive net p) (hothers : ∀ p' th', ¬(p' = p ∧ th' = th) → b.sending p' th' = [])
    (hwires : ∀ p q, (b.wires p q).buffer = [] ∧ (b.wires p q).handling = none) :
    ∃ b', (byteNetwork net).Steps b b' ∧ b'.Quiet ∧ b'.messages = b.messages := by
  generalize hn : b.sending p th = txs
  induction txs generalizing b with
  | nil =>
      refine ⟨b, .refl b, ⟨fun p' th' => ?_, fun p q => (hwires p q).1, fun p q => (hwires p q).2⟩,
        rfl⟩
      by_cases heq : p' = p ∧ th' = th
      · rw [heq.1, heq.2]
        exact hn
      · exact hothers p' th' heq
  | cons tx rest ih =>
      obtain ⟨hok, -⟩ := byteReachable_ok hfits hb
      have htx := (hok.frames p th tx (by rw [hn]; exact List.mem_cons_self)).1
      have hmove := (ByteMove.send p th (msgBufSize - tx.sentBytes) halive hn (by omega)
        (Nat.le_refl _)).step
      generalize hb₁ : ({ b with sending := _, wires := _ } : ByteNetwork) = b₁ at hmove
      have hsame := (hok.send hn hb₁.symm).2
      have hstep : (byteNetwork net).step b (.send p th (msgBufSize - tx.sentBytes)) b₁ :=
        ⟨trivial, hmove⟩
      have hgone : tx.advance (msgBufSize - tx.sentBytes) = [] := by
        unfold Transmission.advance
        rw [if_neg (by omega)]
      have hsending : ∀ p' th', b₁.sending p' th' =
          if p' = p ∧ th' = th then rest else b.sending p' th' := by
        intro p' th'
        rw [← hb₁]
        show b.setSending p th _ p' th' = _
        rw [setSending_apply, hgone]
        rfl
      have hbuffers : ∀ p' q', (b₁.wires p' q').buffer = [] ∧ (b₁.wires p' q').handling = none := by
        intro p' q'
        rw [← hb₁]
        show (b.setWire p tx.target _ p' q').buffer = [] ∧
          (b.setWire p tx.target _ p' q').handling = none
        rw [setWire_apply]
        split
        · exact hwires p tx.target
        · exact hwires p' q'
      have halive' : b₁.alive net p := by
        rw [← hb₁]
        exact halive
      have hothers' : ∀ p' th', ¬(p' = p ∧ th' = th) → b₁.sending p' th' = [] := by
        intro p' th' hne
        rw [hsending, if_neg hne]
        exact hothers p' th' hne
      obtain ⟨b', hsteps, hquiet, hmessages⟩ := ih (.step _ hb hstep) halive' hothers' hbuffers
        (by rw [hsending, if_pos ⟨rfl, rfl⟩])
      exact ⟨b', (System.Steps.one hstep).trans hsteps, hquiet, hmessages.trans hsame⟩

theorem wires_setWire_self {p q : PeerID} {w : Wire} (hwires : b'.wires = b.setWire p q w) :
    b'.wires p q = w := by
  rw [hwires, setWire_apply, if_pos ⟨rfl, rfl⟩]

/-- The first message on a link can arrive before anyone else goes on. -/
theorem exists_arrived (hfits : net.Fits) {p q : PeerID} (hb : (byteNetwork net).Reachable b)
    (hquiet : b.Quiet) (halive : b.alive net q) (hsocket : b.messages.sockets p q ≠ []) :
    ∃ b', (byteNetwork net).Steps b b' ∧ b'.Quiet ∧
      step net b.messages (.deliver p q) = some b'.messages := by
  obtain ⟨hok, -⟩ := byteReachable_ok hfits hb
  obtain ⟨messages, hcarries⟩ := hok.link p q
  rw [hcarries.sockets, hquiet.handling, Option.toList_none, List.nil_append] at hsocket
  obtain ⟨message, rest, rfl⟩ := List.exists_cons_of_ne_nil hsocket
  have hlen : msgBufSize ≤ (b.wires p q).stream.length := by
    have hbytes := congrArg List.length hcarries.2
    unfold ByteNetwork.underWay at hbytes
    rw [hquiet.buffer, missing_of_none (hquiet.sending p), List.nil_append, List.append_nil,
      List.flatMap_cons, List.length_append,
      length_msgFrame (hcarries.1 message List.mem_cons_self)] at hbytes
    omega
  obtain ⟨b₁, hb₁⟩ : ∃ b₁, b₁ = { b with
    wires := b.setWire p q ((b.wires p q).recv msgBufSize) } := ⟨_, rfl⟩
  have hwire₁ : b₁.wires p q = (b.wires p q).recv msgBufSize :=
    wires_setWire_self (by rw [hb₁])
  have hroom : msgBufSize ≤ msgBufSize - (b.wires p q).buffer.length := by
    rw [hquiet.buffer]
    exact Nat.le_refl _
  have hstep₁ : (byteNetwork net).step b (.recv p q msgBufSize) b₁ := by
    rw [hb₁]
    exact ⟨trivial, (ByteMove.recv p q msgBufSize halive (hquiet.handling p q) (by decide)
      hroom hlen).step⟩
  obtain ⟨hok₁, hsame₁⟩ := hok.recv hroom hb₁
  have hfull : (b₁.wires p q).buffer.length = msgBufSize := by
    rw [hwire₁]
    show ((b.wires p q).buffer ++ (b.wires p q).stream.take msgBufSize).length = _
    rw [hquiet.buffer, List.nil_append, List.length_take, Nat.min_eq_left hlen]
  have hnone₁ : (b₁.wires p q).handling = none := by
    rw [hwire₁]
    exact hquiet.handling p q
  have halive₁ : b₁.alive net q := by
    rw [hb₁]
    exact halive
  obtain ⟨m, ms, hcarries₁, hm, -⟩ := hok₁.full hfull
  obtain ⟨b₂, hb₂⟩ : ∃ b₂, b₂ = { b₁ with wires := b₁.setWire p q (b₁.wires p q).deal } :=
    ⟨_, rfl⟩
  have hstep₂ : (byteNetwork net).step b₁ (.deal p q) b₂ := by
    rw [hb₂]
    exact ⟨trivial, (ByteMove.deal p q halive₁ hnone₁ hfull).step⟩
  obtain ⟨hok₂, hsame₂⟩ := hok₁.deal hnone₁ hfull hb₂
  have hsome₂ : (b₂.wires p q).handling = some m := by
    rw [wires_setWire_self (by rw [hb₂])]
    show (if cString (b₁.wires p q).buffer = [] then none else some _) = _
    rw [hm, if_neg (hcarries₁.1 m List.mem_cons_self).1]
  have halive₂ : b₂.alive net q := by
    rw [hb₂]
    exact halive₁
  obtain ⟨b₃, hb₃⟩ : ∃ b₃, b₃ = { b₂ with
    peers :=
      Function.update b₂.peers q
        { b₂.peers q with messagesQueue := (b₂.peers q).messagesQueue ++ [m] }
    wires := b₂.setWire p q { b₂.wires p q with handling := none }
    log := b₂.log ++ [(q, Event.received p m)] } := ⟨_, rfl⟩
  have hstep₃ : (byteNetwork net).step b₂ (.handleMessage p q) b₃ := by
    rw [hb₃]
    exact ⟨trivial, (ByteMove.handleMessage p q halive₂ hsome₂).step⟩
  have hdeliver := (hok₂.handleMessage halive₂ hsome₂ hb₃).2
  rw [hsame₂, hsame₁] at hdeliver
  refine ⟨b₃, .tail _ (.tail _ (.one hstep₁) hstep₂) hstep₃, ?_, hdeliver⟩
  have hends : ∀ p' q', (b₃.wires p' q').buffer = [] ∧ (b₃.wires p' q').handling = none := by
    intro p' q'
    by_cases heq : p' = p ∧ q' = q
    · rw [heq.1, heq.2, wires_setWire_self (by rw [hb₃]), wires_setWire_self (by rw [hb₂])]
      exact ⟨rfl, rfl⟩
    · have hwires : b₃.wires p' q' = b.wires p' q' := by
        rw [hb₃]
        show b₂.setWire p q _ p' q' = _
        rw [setWire_apply, if_neg heq, hb₂]
        show b₁.setWire p q _ p' q' = _
        rw [setWire_apply, if_neg heq, hb₁]
        show b.setWire p q _ p' q' = _
        rw [setWire_apply, if_neg heq]
      rw [hwires]
      exact ⟨hquiet.buffer p' q', hquiet.handling p' q'⟩
  refine ⟨fun p' th' => ?_, fun p' q' => (hends p' q').1, fun p' q' => (hends p' q').2⟩
  rw [hb₃, hb₂, hb₁]
  exact hquiet.sending p' th'

theorem deliver_goes {p q : PeerID} (hstep : step net s (.deliver p q) = some s') :
    s.alive net q ∧ s.sockets p q ≠ [] := by
  dsimp only [step] at hstep
  split at hstep
  · next halive =>
      refine ⟨halive, fun hnil => ?_⟩
      rw [hnil] at hstep
      cases hstep
  · cases hstep

/-- **What a run of messages can do, bytes can do too.** -/
theorem exists_byte_steps (hfits : net.Fits) (hb : (byteNetwork net).Reachable b)
    (hquiet : b.Quiet) (hk : k.Fits) (hstep : step net b.messages k = some s') :
    ∃ b', (byteNetwork net).Steps b b' ∧ b'.Quiet ∧ b'.messages = s' := by
  have hok := byteReachable_ok hfits hb
  -- A label that is one of the bytes too, and leaves the links quiet.
  have hstart : ∀ p th, k.start? = some (p, th) →
      ∃ b', (byteNetwork net).Steps b b' ∧ b'.Quiet ∧ b'.messages = s' := by
    intro p th hl
    obtain ⟨hpeers, -⟩ := step_start hl hstep fun _ _ => []
    have hmove := ByteMove.start (b := b) k hl (hquiet.sending p th) hpeers
    have hsim := (byteStep_simulates hfits hok.1 hok.2 hmove.step).2.2 k rfl
    have hone : (byteNetwork net).step b (.start k) _ := ⟨hk, hmove.step⟩
    refine ⟨_, .one hone, ⟨hquiet.sending, hquiet.buffer, hquiet.handling⟩, ?_⟩
    exact Option.some.inj (hsim.symm.trans hstep)
  cases k with
  | run p th now =>
      obtain ⟨⟨halive, hnow⟩, sec, rest, o, hsec, hexec, rfl⟩ := step_run_cases hstep
      have hfree : sec.locksSendBuffer = true → b.sendBufferTaken p = false := fun hlocks =>
        sendBufferTaken_eq_false.mpr ⟨mutex_of_locks hlocks hexec, hquiet.sending p⟩
      have hmove := ByteMove.run p th now halive hnow (hquiet.sending p th) hsec hfree hexec
      have hsim := (byteStep_simulates hfits hok.1 hok.2 hmove.step).2.2 _ rfl
      have hstep₁ : (byteNetwork net).step b (.run p th now) (b.commit p th rest o) :=
        ⟨trivial, hmove.step⟩
      have hmessages : (b.commit p th rest o).messages = commit b.messages p th rest o :=
        Option.some.inj (hsim.symm.trans hstep)
      have hends : ∀ p q, ((b.commit p th rest o).wires p q).buffer = [] ∧
          ((b.commit p th rest o).wires p q).handling = none :=
        fun p q => ⟨hquiet.buffer p q, hquiet.handling p q⟩
      have hothers : ∀ p' th', ¬(p' = p ∧ th' = th) →
          (b.commit p th rest o).sending p' th' = [] := by
        intro p' th' hne
        show b.setSending p th _ p' th' = []
        rw [setSending_apply, if_neg hne, hquiet.sending]
      by_cases hsends : o.sent = []
      · refine ⟨_, .one hstep₁, ⟨fun p' th' => ?_, fun p q => (hends p q).1,
          fun p q => (hends p q).2⟩, hmessages⟩
        show b.setSending p th _ p' th' = []
        rw [setSending_apply, hsends, hquiet.sending]
        exact ite_self _
      · have hfault : o.tables.fault = none :=
          (fault_of_sends (System.Reachable.of_restrict hok.2) hsec hexec hsends).trans halive.2
        have halive' : (b.commit p th rest o).alive net p := by
          refine ⟨halive.1, ?_⟩
          show (Function.update b.peers p _ p).tables.fault = none
          rw [Function.update_self]
          exact hfault
        obtain ⟨b', hsteps, hquiet', hsame⟩ :=
          exists_sent hfits (.step _ hb hstep₁) halive' hothers hends
        exact ⟨b', (System.Steps.one hstep₁).trans hsteps, hquiet', hsame.trans hmessages⟩
  | deliver p q =>
      obtain ⟨halive, hsocket⟩ := deliver_goes hstep
      obtain ⟨b', hsteps, hquiet', hdeliver⟩ := exists_arrived hfits hb hquiet halive hsocket
      exact ⟨b', hsteps, hquiet', Option.some.inj (hdeliver.symm.trans hstep)⟩
  | takeMessage p => exact hstart p .message rfl
  | takeBroadcast p => exact hstart p .broadcast rfl
  | command p cmd => exact hstart p .command rfl
  | wake p now => exact hstart p .mantain rfl

/-! ## Bytes run out -/

/-- Whoever has bytes under way to somebody can go on, and so can the other end. -/
theorem alive_of_underWay (hfits : net.Fits) (hb : (byteNetwork net).Reachable b)
    (hc : b.messages.NothingRemoved) {p q : PeerID} (h : b.messages.sockets p q ≠ []) :
    b.alive net p ∧ b.alive net q := by
  have hs : Reachable net b.messages :=
    System.Reachable.of_restrict (byteReachable_ok hfits hb).2
  obtain ⟨message, rest, hsocket⟩ := List.exists_cons_of_ne_nil h
  have hmem : .handle message ∈ b.messages.sectionsAt (.socket p q) := by
    rw [Network.sectionsAt, hsocket]
    exact List.mem_cons_self
  obtain ⟨a, ha, hR⟩ := exists_flood hs
  obtain ⟨task, hw, -⟩ := hR.exists_task hmem
  refine ⟨⟨(reachable_holds ha _ hw).1, ?_⟩, alive_of_sectionsAt hs hc (.socket p q) hmem⟩
  rw [show (b.peers p).tables = a.tables p from hR.tables p]
  exact reachable_faultless ha (hR.nothingRemoved.mp hc) p

/-- Bytes count until `DealWithRequest`, and more the further they have to go. -/
def ByteNetwork.weight (b : ByteNetwork) (p q : PeerID) : Nat :=
  3 * (b.missing p q).length + (2 * (b.wires p q).stream.length + (b.wires p q).buffer.length)

def ByteNetwork.toGo (net : Setup) (b : ByteNetwork) : Nat :=
  ∑ x ∈ net.peers.toFinset ×ˢ net.peers.toFinset, b.weight x.1 x.2

theorem toGo_lt {p q : PeerID} (hp : p ∈ net.peers) (hq : q ∈ net.peers)
    (hlt : b'.weight p q < b.weight p q)
    (hothers : ∀ p' q', ¬(p' = p ∧ q' = q) → b'.weight p' q' = b.weight p' q') :
    b'.toGo net < b.toGo net := by
  refine Finset.sum_lt_sum (fun x _ => ?_) ⟨(p, q), ?_, hlt⟩
  · by_cases heq : x.1 = p ∧ x.2 = q
    · rw [heq.1, heq.2]
      exact Nat.le_of_lt hlt
    · exact Nat.le_of_eq (hothers x.1 x.2 heq)
  · exact Finset.mem_product.mpr ⟨List.mem_toFinset.mpr hp, List.mem_toFinset.mpr hq⟩

/-- Who is sending has something missing on the other side. -/
theorem sockets_of_sending (hok : b.Ok) {p : PeerID} {th : Thread} {tx : Transmission}
    (h : tx ∈ b.sending p th) : b.messages.sockets p tx.target ≠ [] := by
  obtain ⟨messages, hmessages⟩ := hok.link p tx.target
  rw [hmessages.sockets]
  intro hnil
  obtain ⟨-, rfl⟩ := List.append_eq_nil_iff.mp hnil
  obtain ⟨-, hrest⟩ := List.append_eq_nil_iff.mp hmessages.2
  obtain ⟨-, hmissing⟩ := List.append_eq_nil_iff.mp hrest
  obtain ⟨hlt, hsendable⟩ := hok.frames p th tx h
  have hnone := List.flatMap_eq_nil_iff.mp (List.flatMap_eq_nil_iff.mp hmissing th th.mem_all) tx h
  rw [Transmission.missing, if_pos rfl] at hnone
  have hlen := congrArg List.length hnone
  rw [List.length_drop, length_msgFrame hsendable, List.length_nil] at hlen
  omega

theorem sockets_of_wire (hok : b.Ok) {p q : PeerID}
    (h : (b.wires p q).buffer ++ (b.wires p q).stream ≠ []) : b.messages.sockets p q ≠ [] := by
  obtain ⟨messages, hmessages⟩ := hok.link p q
  rw [hmessages.sockets]
  intro hnil
  obtain ⟨-, rfl⟩ := List.append_eq_nil_iff.mp hnil
  obtain ⟨hbuffer, hrest⟩ := List.append_eq_nil_iff.mp hmessages.2
  rw [hbuffer, (List.append_eq_nil_iff.mp hrest).1] at h
  exact h rfl

/-- **A step that moves no message brings bytes nearer to their end.** -/
theorem toGo_of_byteStep (hfits : net.Fits) (hb : (byteNetwork net).Reachable b)
    (hc : b.messages.NothingRemoved) (hlabel : l.label? = none)
    (hstep : byteStep net b l = some b') : b'.toGo net < b.toGo net := by
  obtain ⟨hok, -⟩ := byteReachable_ok hfits hb
  have hmove := byteStep_move hstep
  cases hmove with
  | run | start | handleMessage => cases hlabel
  | @send p th bytes tx rest halive hsending hpos hle =>
      have hmem : tx ∈ b.sending p th := by
        rw [hsending]
        exact List.mem_cons_self
      have htx := hok.frames p th tx hmem
      obtain ⟨hp, hq⟩ := alive_of_underWay hfits hb hc (sockets_of_sending hok hmem)
      have hlen : (((msgFrame tx.message).drop tx.sentBytes).take bytes).length = bytes := by
        rw [List.length_take, List.length_drop, length_msgFrame htx.2]
        omega
      generalize hb' : ({ b with sending := _, wires := _ } : ByteNetwork) = b'
      have hsent : b'.sending = b.setSending p th (tx.advance bytes ++ rest) := by rw [← hb']
      have hmissing := missing_send hok hsending hsent
      have hwire : ∀ p' q', b'.wires p' q' = if p' = p ∧ q' = tx.target then
          (b.wires p tx.target).write (((msgFrame tx.message).drop tx.sentBytes).take bytes)
          else b.wires p' q' := by
        intro p' q'
        rw [← hb']
        exact setWire_apply ..
      refine toGo_lt hp.1 hq.1 ?_ fun p' q' hne => ?_
      · unfold ByteNetwork.weight
        rw [hmissing p tx.target, hwire, if_pos ⟨rfl, rfl⟩, if_pos ⟨rfl, rfl⟩]
        show 3 * (b'.missing p tx.target).length + (2 * ((b.wires p tx.target).stream ++ _).length +
          (b.wires p tx.target).buffer.length) < _
        rw [List.length_append, List.length_append, hlen]
        omega
      · unfold ByteNetwork.weight
        rw [hmissing p' q', hwire, if_neg hne, if_neg hne, List.nil_append]
  | recv p q bytes halive hnone hpos hroom hle =>
      have hne : (b.wires p q).buffer ++ (b.wires p q).stream ≠ [] := by
        intro hnil
        rw [(List.append_eq_nil_iff.mp hnil).2, List.length_nil] at hle
        omega
      obtain ⟨hp, hq⟩ := alive_of_underWay hfits hb hc (sockets_of_wire hok hne)
      refine toGo_lt hp.1 hq.1 ?_ fun p' q' hne => ?_
      · show 3 * (b.missing p q).length + (2 * (b.setWire p q _ p q).stream.length +
          (b.setWire p q _ p q).buffer.length) < b.weight p q
        rw [setWire_apply, if_pos ⟨rfl, rfl⟩]
        show 3 * _ + (2 * ((b.wires p q).stream.drop bytes).length +
          ((b.wires p q).buffer ++ (b.wires p q).stream.take bytes).length) < b.weight p q
        rw [List.length_append, List.length_drop, List.length_take, Nat.min_eq_left hle]
        unfold ByteNetwork.weight
        omega
      · show 3 * (b.missing p' q').length + (2 * (b.setWire p q _ p' q').stream.length +
          (b.setWire p q _ p' q').buffer.length) = b.weight p' q'
        rw [setWire_apply, if_neg hne]
        rfl
  | deal p q halive hnone hfull =>
      have hne : (b.wires p q).buffer ++ (b.wires p q).stream ≠ [] := by
        intro hnil
        rw [(List.append_eq_nil_iff.mp hnil).1] at hfull
        cases hfull
      obtain ⟨hp, hq⟩ := alive_of_underWay hfits hb hc (sockets_of_wire hok hne)
      refine toGo_lt hp.1 hq.1 ?_ fun p' q' hne => ?_
      · show 3 * (b.missing p q).length + (2 * (b.setWire p q _ p q).stream.length +
          (b.setWire p q _ p q).buffer.length) < b.weight p q
        rw [setWire_apply, if_pos ⟨rfl, rfl⟩]
        show 3 * _ + (2 * (b.wires p q).stream.length + 0) < b.weight p q
        unfold ByteNetwork.weight
        rw [hfull]
        exact Nat.add_lt_add_left (Nat.add_lt_add_left (by decide) _) _
      · show 3 * (b.missing p' q').length + (2 * (b.setWire p q _ p' q').stream.length +
          (b.setWire p q _ p' q').buffer.length) = b.weight p' q'
        rw [setWire_apply, if_neg hne]
        rfl

/-- Nobody types a command and the cleaner sleeps. -/
def ByteLabel.isUndisturbed (l : ByteLabel) : Bool := l.label?.all Label.isUndisturbed

/-- **Nobody waits for bytes for good.** -/
theorem byteNetwork_goes (hfits : net.Fits) (hb : (byteNetwork net).Reachable b)
    (hc : b.messages.NothingRemoved) (hnum : ¬b.messages.OutOfNumbers)
    (hbusy : ¬b.messages.AtRest) :
    ∃ l b', l.isUndisturbed = true ∧ (byteNetwork net).step b l b' := by
  obtain ⟨hok, hs⟩ := byteReachable_ok hfits hb
  by_cases hsends : ∃ p th tx, tx ∈ b.sending p th
  · obtain ⟨p, th, tx, hmem⟩ := hsends
    obtain ⟨tx, rest, hsending⟩ := List.exists_cons_of_ne_nil (List.ne_nil_of_mem hmem)
    have hfirst : tx ∈ b.sending p th := by
      rw [hsending]
      exact List.mem_cons_self
    have hlt := (hok.frames p th tx hfirst).1
    have halive := (alive_of_underWay hfits hb hc (sockets_of_sending hok hfirst)).1
    have hmove := ByteMove.send p th 1 halive hsending (by decide) (by omega)
    exact ⟨.send p th 1, _, rfl, trivial, hmove.step⟩
  · have hquiet : ∀ p th, b.sending p th = [] := fun p th =>
      List.eq_nil_iff_forall_not_mem.mpr fun tx hmem => hsends ⟨p, th, tx, hmem⟩
    obtain ⟨k, s', hk, hstep⟩ := network_goes (System.Reachable.of_restrict hs) hc hnum hbusy
    have hstart : ∀ p th, k.start? = some (p, th) → k.Fits →
        ∃ l b', l.isUndisturbed = true ∧ (byteNetwork net).step b l b' := by
      intro p th hl hkfits
      obtain ⟨hpeers, -⟩ := step_start hl hstep fun _ _ => []
      have hmove := ByteMove.start (b := b) k hl (hquiet p th) hpeers
      exact ⟨.start k, _, hk, hkfits, hmove.step⟩
    cases k with
    | run p th now =>
        obtain ⟨⟨halive, hnow⟩, sec, rest, o, hsec, hexec, -⟩ := step_run_cases hstep
        have hmove := ByteMove.run p th now halive hnow (hquiet p th) hsec
          (fun hlocks => sendBufferTaken_eq_false.mpr ⟨mutex_of_locks hlocks hexec, hquiet p⟩)
          hexec
        exact ⟨.run p th now, _, hk, trivial, hmove.step⟩
    | takeMessage p => exact hstart p .message rfl trivial
    | takeBroadcast p => exact hstart p .broadcast rfl trivial
    | command | wake => cases hk
    | deliver p q =>
        obtain ⟨halive, hsocket⟩ := deliver_goes hstep
        cases hhandling : (b.wires p q).handling with
        | some message =>
            have hmove := ByteMove.handleMessage p q halive hhandling
            exact ⟨.handleMessage p q, _, rfl, trivial, hmove.step⟩
        | none =>
            by_cases hfull : (b.wires p q).buffer.length = msgBufSize
            · have hmove := ByteMove.deal p q halive hhandling hfull
              exact ⟨.deal p q, _, rfl, trivial, hmove.step⟩
            · -- The next message is not yet in the buffer, so the rest of it is on the stream.
              have hroom := hok.room p q
              obtain ⟨messages, hmessages⟩ := hok.link p q
              rw [hmessages.sockets, hhandling, Option.toList_none, List.nil_append] at hsocket
              obtain ⟨message, rest, rfl⟩ := List.exists_cons_of_ne_nil hsocket
              have hbytes := congrArg List.length hmessages.2
              unfold ByteNetwork.underWay at hbytes
              rw [missing_of_none (hquiet p), List.append_nil, List.length_append,
                List.flatMap_cons, List.length_append,
                length_msgFrame (hmessages.1 message List.mem_cons_self)] at hbytes
              have hmove := ByteMove.recv p q 1 halive hhandling (by decide) (by omega) (by omega)
              exact ⟨.recv p q 1, _, rfl, trivial, hmove.step⟩

end Runs

end P2PFileSharing
