import P2PFileSharing.Model.Scenario
import P2PFileSharing.Proofs.Wire

/-!
# A link is a queue of messages

However the sends and the receives cut the bytes, the handler thread at the end of
a link sees the frames that were written, because both sides count to the same
number. Which frames were written, and in which order, is what the mutex decides.
And a link never gets stuck: from anywhere the thread in the loop can finish it,
and what is under way can be received and dealt with.
-/

namespace P2PFileSharing

variable {net : Setup} {s s' : Wires} {p q : PeerID}

/-- Whether a job is meant for a peer: a broadcast item for every connected peer but the
excluded one, a hit for its upstream peer. -/
def Sending.IsFor (connected : List PeerID) (q : PeerID) : Sending → Prop
  | .broadcast _ exclude => q ∈ connected ∧ q ≠ exclude
  | .hit _ upstream => q = upstream

instance (connected : List PeerID) (q : PeerID) (job : Sending) :
    Decidable (job.IsFor connected q) := by
  cases job <;> unfold Sending.IsFor <;> infer_instance

/-- The messages meant for a peer, in the order in which `m_send_buffer_mutex` was taken. -/
def Wires.messagesFor (net : Setup) (s : Wires) (p q : PeerID) : List Str :=
  ((s.senders p).order.filter fun job => job.IsFor (net.peerIdToSockfd p) q).map Sending.message

/-- The messages `DealWithRequest` was called with at the end of a link. -/
def Wires.dealtWith (s : Wires) (p q : PeerID) : List Str := (s.wires p q).dealt.map cString

/-- No thread of the peer is in the loop, and the link is empty. -/
def Wires.Drained (s : Wires) (p q : PeerID) : Prop :=
  (∀ th, ¬((s.senders p).point th).IsSending) ∧ (s.wires p q).handling = none ∧
    (s.wires p q).buffer = [] ∧ (s.wires p q).stream = []

theorem messagesFor_eq (s : Wires) (p q : PeerID) :
    s.messagesFor net p q = (s.senders p).ordered (net.peerIdToSockfd p) q := by
  rw [Wires.messagesFor, Sender.ordered]
  congr 1
  refine List.filter_congr fun job _ => ?_
  rw [decide_eq_decide]
  cases job with
  | broadcast message exclude =>
      rw [Sending.IsFor, Sending.targets, List.mem_filter, decide_eq_true_eq]
  | hit message upstream => rw [Sending.IsFor, Sending.targets, List.mem_singleton]

theorem missing_of_free (h : ∀ th, ¬((s.senders p).point th).IsSending) (q : PeerID) :
    (s.senders p).missing q = [] := by
  rw [Sender.missing, missing_of_not_isSending (h _), missing_of_not_isSending (h _)]
  rfl

/-! ## Safety -/

/-- What is not yet dealt with is frames too. -/
theorem frames_left (h : s.Ok net) (p q : PeerID) :
    ∃ later, (s.messagesFor net p q).map msgFrame = (s.wires p q).dealt ++ later ∧
      (s.wires p q).buffer ++ ((s.wires p q).stream ++ (s.senders p).missing q) =
        later.flatten ∧ ∀ b ∈ later, b.length = msgBufSize := by
  have hall : ∀ b ∈ (s.messagesFor net p q).map msgFrame, b.length = msgBufSize := by
    intro b hb
    obtain ⟨m, hm, rfl⟩ := List.mem_map.mp hb
    obtain ⟨job, hjob, rfl⟩ := List.mem_map.mp hm
    exact length_msgFrame ((h.sender p).sendable job (List.mem_of_mem_filter hjob))
  have hbytes : (s.wires p q).dealt.flatten ++
      ((s.wires p q).buffer ++ ((s.wires p q).stream ++ (s.senders p).missing q)) =
        ((s.messagesFor net p q).map msgFrame).flatten := by
    have hsent := h.sent p q
    rw [Wires.Sent, ← (h.wire p q).bytes] at hsent
    rw [messagesFor_eq, ← List.flatMap_def, ← hsent]
    simp only [List.append_assoc]
  obtain ⟨later, heq, hr⟩ := frames_earlier (by decide) (h.wire p q).full hall hbytes
  refine ⟨later, heq, hr, fun b hb => hall b ?_⟩
  rw [heq]
  exact List.mem_append_right _ hb

theorem map_cString {ms : List Str} (h : ∀ m ∈ ms, Sendable m) :
    (ms.map msgFrame).map cString = ms := by
  rw [List.map_map]
  calc ms.map (cString ∘ msgFrame) = ms.map id :=
        List.map_congr_left fun m hm => unpad_pad (h m hm).2.1
    _ = ms := List.map_id ms

theorem messagesFor_sendable (h : s.Ok net) {m : Str} (hm : m ∈ s.messagesFor net p q) :
    Sendable m := by
  obtain ⟨job, hjob, rfl⟩ := List.mem_map.mp hm
  exact (h.sender p).sendable job (List.mem_of_mem_filter hjob)

/-- The messages dealt with are the first of those meant for the peer. -/
theorem dealtWith_earlier (h : s.Ok net) (p q : PeerID) :
    s.dealtWith p q <+: s.messagesFor net p q := by
  obtain ⟨later, heq, -, -⟩ := frames_left h p q
  rw [← map_cString fun m hm => messagesFor_sendable h hm, heq, List.map_append]
  exact List.prefix_append _ _

theorem texts_eq (h : s.Ok net) (p q : PeerID) :
    (s.wires p q).texts = s.dealtWith p q := by
  refine List.filter_eq_self.mpr fun m hm => ?_
  rw [decide_eq_true_eq]
  exact (messagesFor_sendable h ((dealtWith_earlier h p q).subset hm)).1

theorem dealtWith_of_drained (h : s.Ok net) (hd : s.Drained p q) :
    s.dealtWith p q = s.messagesFor net p q := by
  obtain ⟨hfree, -, hbuf, hstream⟩ := hd
  obtain ⟨later, heq, hr, hlen⟩ := frames_left h p q
  rw [hbuf, hstream, missing_of_free hfree] at hr
  have hnone : later = [] := by
    refine frames_none hlen ?_
    rw [← hr]
    exact (by decide : 0 < 1024)
  rw [hnone, List.append_nil] at heq
  rw [Wires.dealtWith, ← heq, map_cString fun m hm => messagesFor_sendable h hm]

/-! ## Progress -/

theorem steps_one {l : WireLabel} (hm : l.message? = none) (h : WireMove net s l s') :
    (wires net).Steps s s' :=
  .tail l (.refl s) ⟨fun m hl => (by rw [hm] at hl; cases hl), h.step⟩

theorem ok_quiet {l : WireLabel} (h : s.Ok net) (hm : l.message? = none)
    (hl : WireMove net s l s') : s'.Ok net :=
  ok_step h (fun m hl => (by rw [hm] at hl; cases hl)) hl

/-- The thread in the loop gets through the rest of it. -/
theorem finish_loop {th : SendThread} (peers : List PeerID) :
    ∀ {s : Wires} {message : Str} {sentBytes : Nat}, s.Ok net →
    (s.senders p).point th = .sending peers message sentBytes →
    ∃ s', (wires net).Steps s s' ∧ s'.Ok net ∧
      (∀ th, ¬((s'.senders p).point th).IsSending) ∧
      (s'.senders p).order = (s.senders p).order := by
  induction peers with
  | nil =>
      intro s message sentBytes h hp
      have hl : WireMove net s (.unlock p th) _ := .unlock p th hp
      have h' := ok_quiet h rfl hl
      refine ⟨_, steps_one rfl hl, h', fun th' hs => ?_, ?_⟩
      · have hheld := (h'.sender p).held th' hs
        rw [senders_setSender, if_pos rfl] at hheld
        cases hheld
      · rw [senders_setSender, if_pos rfl]
        rfl
  | cons r rest ih =>
      intro s message sentBytes h hp
      have hlt : sentBytes < msgBufSize := by
        have hok := (h.sender p).points th
        rw [hp] at hok
        exact hok.2.2.2
      have hl : WireMove net s (.send p th (msgBufSize - sentBytes)) _ :=
        .send p th _ hp (by omega) (Nat.le_refl _)
      have h₁ := ok_quiet h rfl hl
      have hp₁ (w : Wire) : ((((s.setSender p ((s.senders p).setPoint th (sendingAfter r rest
          message (sentBytes + (msgBufSize - sentBytes))))).setWire p r w).senders p).point th) =
            .sending rest message 0 := by
        rw [senders_setWire, senders_setSender, if_pos rfl, point_setPoint, sendingAfter,
          if_neg (by omega)]
      obtain ⟨s', hsteps, h', hfree, horder⟩ := ih h₁ (hp₁ _)
      refine ⟨s', (steps_one rfl hl).trans hsteps, h', hfree, ?_⟩
      rw [horder, senders_setWire, senders_setSender, if_pos rfl]
      rfl

theorem finish_sending (h : s.Ok net) (p : PeerID) :
    ∃ s', (wires net).Steps s s' ∧ s'.Ok net ∧
      (∀ th, ¬((s'.senders p).point th).IsSending) ∧
      (s'.senders p).order = (s.senders p).order := by
  by_cases hfree : ∀ th, ¬((s.senders p).point th).IsSending
  · exact ⟨s, .refl s, h, hfree, rfl⟩
  · simp only [not_forall, not_not] at hfree
    obtain ⟨th, hs⟩ := hfree
    cases hp : (s.senders p).point th with
    | sending peers message sentBytes => exact finish_loop peers h hp
    | _ =>
        rw [hp] at hs
        exact hs.elim

/-- The handler thread hands on what `DealWithRequest` left it. -/
theorem finish_handling (h : s.Ok net) (p q : PeerID) :
    ∃ s', (wires net).Steps s s' ∧ s'.Ok net ∧ s'.senders = s.senders ∧
      (s'.wires p q).handling = none ∧ (s'.wires p q).buffer = (s.wires p q).buffer ∧
      (s'.wires p q).stream = (s.wires p q).stream := by
  cases hh : (s.wires p q).handling with
  | none => exact ⟨s, .refl s, h, rfl, hh, rfl, rfl⟩
  | some message =>
      have hl : WireMove net s (.handleMessage p q) _ := .handleMessage p q hh
      have hwire : ((s.setWire p q { s.wires p q with handling := none }).wires p q) =
          { s.wires p q with handling := none } := by rw [wires_setWire, if_pos ⟨rfl, rfl⟩]
      refine ⟨_, steps_one rfl hl, ok_quiet h rfl hl, rfl, ?_, ?_, ?_⟩
      · show ((s.setWire p q _).wires p q).handling = none
        rw [hwire]
      · show ((s.setWire p q _).wires p q).buffer = _
        rw [hwire]
      · show ((s.setWire p q _).wires p q).stream = _
        rw [hwire]

/-- The handler thread fills its buffer, if a frame is on its way. -/
theorem finish_buffer (h : s.Ok net) (hnone : (s.wires p q).handling = none)
    (hlen : msgBufSize ≤ (s.wires p q).buffer.length + (s.wires p q).stream.length) :
    ∃ s', (wires net).Steps s s' ∧ s'.Ok net ∧ s'.senders = s.senders ∧
      (s'.wires p q).handling = none ∧ (s'.wires p q).buffer.length = msgBufSize ∧
      (s'.wires p q).stream.length + msgBufSize =
        (s.wires p q).buffer.length + (s.wires p q).stream.length := by
  have hroom := (h.wire p q).room
  by_cases hfull : (s.wires p q).buffer.length = msgBufSize
  · exact ⟨s, .refl s, h, rfl, hnone, hfull, by omega⟩
  · have hl : WireMove net s (.recv p q (msgBufSize - (s.wires p q).buffer.length)) _ :=
      .recv p q _ hnone (by omega) (Nat.le_refl _) (by omega)
    have hwire : (s.setWire p q ((s.wires p q).recv
        (msgBufSize - (s.wires p q).buffer.length))).wires p q =
          (s.wires p q).recv (msgBufSize - (s.wires p q).buffer.length) := by
      rw [wires_setWire, if_pos ⟨rfl, rfl⟩]
    refine ⟨_, steps_one rfl hl, ok_quiet h rfl hl, rfl, ?_, ?_, ?_⟩
    · rw [hwire]
      exact hnone
    · rw [hwire, Wire.recv, List.length_append, List.length_take]
      omega
    · rw [hwire, Wire.recv, List.length_drop]
      omega

/-- What is under way on a link gets received and dealt with. -/
theorem finish_receiving (n : Nat) :
    ∀ {s : Wires}, s.Ok net → (∀ th, ¬((s.senders p).point th).IsSending) →
    (s.wires p q).buffer.length + (s.wires p q).stream.length ≤ n →
    ∃ s', (wires net).Steps s s' ∧ s'.Drained p q ∧
      (s'.senders p).order = (s.senders p).order := by
  induction n using Nat.strong_induction_on with
  | h n ih =>
      intro s h hfree hn
      obtain ⟨s₁, hsteps₁, h₁, hsend₁, hnone₁, hbuf₁, hstream₁⟩ := finish_handling h p q
      rw [← hsend₁] at hfree
      by_cases hlen : msgBufSize ≤ (s₁.wires p q).buffer.length + (s₁.wires p q).stream.length
      · obtain ⟨s₂, hsteps₂, h₂, hsend₂, hnone₂, hfull₂, hlen₂⟩ := finish_buffer h₁ hnone₁ hlen
        have hl : WireMove net s₂ (.deal p q) _ := .deal p q hnone₂ hfull₂
        have h₃ := ok_quiet h₂ rfl hl
        have hwire : (s₂.setWire p q (s₂.wires p q).deal).wires p q = (s₂.wires p q).deal := by
          rw [wires_setWire, if_pos ⟨rfl, rfl⟩]
        have hsize : (1024 : Nat) = msgBufSize := rfl
        have hlt : ((s₂.setWire p q (s₂.wires p q).deal).wires p q).buffer.length +
            ((s₂.setWire p q (s₂.wires p q).deal).wires p q).stream.length < n := by
          rw [hwire]
          show 0 + (s₂.wires p q).stream.length < n
          rw [hbuf₁, hstream₁] at hlen₂
          omega
        rw [← hsend₂] at hfree
        obtain ⟨s', hsteps, hd, horder⟩ := ih _ hlt h₃ hfree (Nat.le_refl _)
        refine ⟨s', (hsteps₁.trans hsteps₂).trans ((steps_one rfl hl).trans hsteps), hd, ?_⟩
        rw [horder, ← hsend₁, ← hsend₂]
        rfl
      · obtain ⟨later, -, hr, hall⟩ := frames_left h₁ p q
        rw [missing_of_free hfree, List.append_nil] at hr
        have hnil : later = [] := by
          refine frames_none hall ?_
          rw [← hr, List.length_append]
          omega
        rw [hnil, List.flatten_nil, List.append_eq_nil_iff] at hr
        exact ⟨s₁, hsteps₁, ⟨hfree, hnone₁, hr.1, hr.2⟩, by rw [hsend₁]⟩

/-- What a link does with the messages meant for its end. -/
structure Wires.Delivers (net : Setup) (s : Wires) (p q : PeerID) : Prop where
  /-- Each message is dealt with once, as it was, and in the order of the mutex. -/
  dealt : s.dealtWith p q <+: s.messagesFor net p q
  /-- The queue gets them in that order. -/
  queued : s.pushed p q ++ (s.wires p q).handling.toList = s.dealtWith p q
  /-- A link that nothing is under way on has delivered every message. -/
  all : s.Drained p q →
    s.dealtWith p q = s.messagesFor net p q ∧ s.pushed p q = s.messagesFor net p q
  /-- Such a state can be reached without taking the mutex again. -/
  drains : ∃ s', (P2PFileSharing.wires net).Steps s s' ∧ s'.Drained p q ∧
    s'.messagesFor net p q = s.messagesFor net p q
  /-- Outside the loop, every message was written once to each peer it is meant for. -/
  written : (∀ th, ¬((s.senders p).point th).IsSending) →
    (s.wires p q).written = (s.messagesFor net p q).flatMap msgFrame
  /-- Nothing is written to a peer that is not connected. -/
  unconnected : q ∉ net.peerIdToSockfd p → (s.wires p q).written = []
  /-- The broadcast items sent are the first of those queued, in order. -/
  items : (s.senders p).order.filterMap Sending.item? <+: (s.senders p).items

/-- Every link delivers the messages meant for its end. -/
theorem link_delivers (h : (wires net).Reachable s) (p q : PeerID) : s.Delivers net p q := by
  have hok := reachable_ok h
  have hqueued : s.pushed p q ++ (s.wires p q).handling.toList = s.dealtWith p q := by
    rw [hok.pushed p q, texts_eq hok]
  refine ⟨dealtWith_earlier hok p q, hqueued, fun hd => ?_, ?_, fun hfree => ?_,
    fun hq => ?_, ?_⟩
  · have hall := dealtWith_of_drained hok hd
    rw [hd.2.1, Option.toList_none, List.append_nil] at hqueued
    exact ⟨hall, hqueued.trans hall⟩
  · obtain ⟨s₁, hsteps₁, h₁, hfree₁, horder₁⟩ := finish_sending hok p
    obtain ⟨s₂, hsteps₂, hd, horder₂⟩ := finish_receiving _ h₁ hfree₁ (Nat.le_refl _)
    refine ⟨s₂, hsteps₁.trans hsteps₂, hd, ?_⟩
    rw [Wires.messagesFor, Wires.messagesFor, horder₂, horder₁]
  · have hsent := hok.sent p q
    rw [Wires.Sent, missing_of_free hfree, List.append_nil] at hsent
    rw [hsent, messagesFor_eq]
  · have hnone : (s.senders p).ordered (net.peerIdToSockfd p) q = [] := by
      rw [Sender.ordered, List.map_eq_nil_iff, List.filter_eq_nil_iff]
      intro job hjob
      rw [decide_eq_true_eq]
      exact fun hmem => hq ((hok.sender p).reached job hjob q hmem)
    have hsent := hok.sent p q
    rw [Wires.Sent, hnone, List.flatMap_nil, List.append_eq_nil_iff] at hsent
    exact hsent.1
  · rw [hok.fifo p]
    exact List.prefix_append _ _

/-- Peer 0's broadcast of a message crosses the link to its neighbour in odd pieces. -/
def crossed : Wires :=
  (System.runSteps (wireStep lineOfThree) initialWires
    [.broadcast 0 theFile.1 (-1), .takeBroadcast 0, .lock 0 .broadcast 0, .send 0 .broadcast 1000,
      .recv 0 1 1, .send 0 .broadcast 24, .unlock 0 .broadcast, .recv 0 1 1023, .deal 0 1,
      .handleMessage 0 1]).getD initialWires

theorem link_delivers_crossed :
    crossed.Delivers lineOfThree 0 1 ∧ crossed.pushed 0 1 = [theFile.1] := by
  have hrun : (wires lineOfThree).Reachable crossed := by
    refine System.Reachable.getD_runSteps (.init rfl) ?_
    intro l hl s s' hstep
    refine ⟨fun m hm => ?_, hstep⟩
    simp only [List.mem_cons, List.not_mem_nil, or_false] at hl
    rcases hl with rfl | rfl | rfl | rfl | rfl | rfl | rfl | rfl | rfl | rfl <;> cases hm
    decide
  exact ⟨link_delivers hrun 0 1, by decide +kernel⟩

end P2PFileSharing
