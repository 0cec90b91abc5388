import P2PFileSharing.Proofs.Packets

/-!
# What a transfer puts on the connection, and what arrives

However `send` and `recv` cut a file into pieces, a transfer in which they do not fail comes
to its end with the file on the other side. The break after a failed `send` leaves only the
inner loop: the rest of that packet is skipped and the next one is read. As long as every
later call fails as well, what was sent is a front part of the file; one that succeeds
leaves a hole.
-/

namespace P2PFileSharing

/-! ## Chunked transfers -/

section Exact

variable {content : Str} {start : PacketLoop} {s s' : Transfer} {l : TransferLabel}

/-- Both sides have ended, and the bytes received are those of the file. -/
structure Complete (content : Str) (s : Transfer) : Prop where
  sender : s.sender.point = .done
  receiver : s.receiving = false
  bytes : receivedBytes s.received = content

/-- The calls left at a point besides those for its bytes. -/
def PacketPoint.weight : PacketPoint → Nat
  | .done => 0
  | _ => 2

/-- How many calls the sender has left at most, and the receiver for what they will bring. -/
def PacketLoop.callsLeft (s : PacketLoop) : Nat :=
  3 * s.unread.flatten.length + 2 * s.point.left.length + s.point.weight

/-- How many calls are left on both sides at most. -/
def Transfer.callsLeft (s : Transfer) : Nat :=
  s.sender.callsLeft + (s.sender.sent.length - s.taken) + s.receiving.toNat

theorem weight_sendLoop_le (msgBuffer : Str) (readSize bytesSent : Nat) :
    (sendLoop msgBuffer readSize bytesSent).weight ≤ 2 := by
  cases sendLoop msgBuffer readSize bytesSent with
  | done => exact Nat.zero_le 2
  | read => exact Nat.le_refl 2
  | send => exact Nat.le_refl 2

/-- A call of the sending side uses up more than the bytes it sends. -/
theorem callsLeft_packetStep {x y : PacketLoop} {lbl : PacketLabel} (hw : Whole content x)
    (hok : ∀ sent, lbl = .send sent → 0 < sent) (hstep : packetStep x lbl = some y) :
    y.callsLeft + y.sent.length < x.callsLeft + x.sent.length := by
  have hrest := hw.rest
  rcases packetStep_cases hstep with ⟨-, hpoint, packet, rest, hunread, rfl⟩ |
    ⟨sent, b, r, k, rfl, hpoint, hcase⟩
  · have hread : PacketPoint.read.left = [] := rfl
    have htwo : PacketPoint.read.weight = 2 := rfl
    have hweight := weight_sendLoop_le (pad fileTransferPacketSize '\x00' packet) packet.length 0
    simp only [PacketLoop.callsLeft, hpoint, hunread, hread, htwo, left_sendLoop,
      take_pad (Nat.le_refl _), List.take_length, List.drop_zero, List.flatten_cons,
      List.length_append, List.length_nil]
    by_cases hnil : packet.length = 0
    · -- an empty packet is the last
      have hdone :
          (sendLoop (pad fileTransferPacketSize '\x00' packet) packet.length 0).weight = 0 := by
        rw [hnil]
        rfl
      omega
    · omega
  · rcases hcase with ⟨hle, -⟩ | ⟨hpos, hroom, rfl⟩
    · exact absurd (hok sent rfl) (by omega)
    · rw [hpoint] at hrest
      obtain ⟨hk, hbuf, -⟩ := hrest
      have hleft : (PacketPoint.send b r k).left.length = r - k := by
        rw [PacketPoint.left, List.length_drop, List.length_take]
        omega
      have hnext : (sendLoop b r (k + sent.toNat)).left.length = r - (k + sent.toNat) := by
        rw [left_sendLoop, List.length_drop, List.length_take]
        omega
      have hput : ((b.drop k).take sent.toNat).length = sent.toNat := by
        rw [List.length_take, List.length_drop]
        omega
      have htwo : (PacketPoint.send b r k).weight = 2 := rfl
      have hweight := weight_sendLoop_le b r (k + sent.toNat)
      simp only [PacketLoop.callsLeft, hpoint, hleft, hnext, htwo, List.length_append, hput]
      omega

/-- Every call that does not fail brings the end nearer. -/
theorem callsLeft_lt (hw : Whole content s.sender) (hr : Received s)
    (hstep : (reliableTransfer start).step s l s') : s'.callsLeft < s.callsLeft := by
  have htaken := hr.taken
  rcases transferStep_cases hstep with ⟨lbl, x, -, hok, hx, rfl⟩ |
    ⟨bytes, hreceiving, ⟨hfront, -, -⟩, rfl⟩
  · have hlt := callsLeft_packetStep hw hok hx
    have hgrows := (sent_grows hx).length_le
    simp only [Transfer.callsLeft]
    omega
  · have hlen := hfront.length_le
    rw [List.length_drop] at hlen
    simp only [Transfer.callsLeft, hreceiving]
    cases bytes with
    | nil => exact Nat.lt_succ_self _
    | cons c rest =>
        rw [List.length_cons] at hlen ⊢
        show s.sender.callsLeft + (s.sender.sent.length - (s.taken + (rest.length + 1))) + 1 <
          s.sender.callsLeft + (s.sender.sent.length - s.taken) + 1
        omega

theorem reliable_sender {x : PacketLoop} {lbl : PacketLabel}
    (hok : TransferLabel.Succeeds (.sender lbl)) (h : packetStep s.sender lbl = some x) :
    ∃ l s', (reliableTransfer start).step s l s' := by
  refine ⟨.sender lbl, { s with sender := x }, hok, ?_⟩
  show transferStep s _ = some _
  rw [transferStep, h]

theorem reliable_recv {bytes : Str} (hreceiving : s.receiving = true) (h : s.CanReceive bytes) :
    ∃ l s', (reliableTransfer start).step s l s' := by
  have hok : TransferLabel.Succeeds (.recv (.data bytes)) := nofun
  have hstep : transferStep s (.recv (.data bytes)) = some
      { s with
        taken := s.taken + bytes.length
        received := s.received ++ [.data bytes]
        receiving := !bytes.isEmpty } := if_pos ⟨hreceiving, h⟩
  exact ⟨_, _, hok, hstep⟩

/-- Until the transfer is complete there is a call that does not fail. -/
theorem reliable_goes_on (hw : Whole content s.sender) (hr : Received s)
    (h : ¬Complete content s) : ∃ l s', (reliableTransfer start).step s l s' := by
  have hrest := hw.rest
  cases hpoint : s.sender.point with
  | read =>
      rw [hpoint] at hrest
      obtain ⟨c, hc⟩ := hrest
      rw [freads_eq] at hc
      have hok : TransferLabel.Succeeds (.sender .fread) := trivial
      have hstep := packetStep_fread hpoint hc
      exact reliable_sender hok hstep
  | send b r k =>
      rw [hpoint] at hrest
      obtain ⟨hk, -, -⟩ := hrest
      have hroom : (1 : Int).toNat ≤ r - k := by
        show 1 ≤ r - k
        omega
      have hok : TransferLabel.Succeeds (.sender (.send 1)) := Int.one_pos
      exact reliable_sender hok (packetStep_send hpoint Int.one_pos hroom)
  | done =>
      cases hreceiving : s.receiving with
      | true =>
          -- a byte that is under way, or the end
          have hcan : s.CanReceive ((s.sender.sent.drop s.taken).take 1) := by
            refine ⟨List.take_prefix _ _, ?_, ?_⟩
            · exact Nat.le_trans (List.length_take_le _ _) (by decide)
            · intro hnil
              have hnone := congrArg List.length hnil
              rw [List.length_take, List.length_drop, List.length_nil] at hnone
              have htaken := hr.taken
              exact ⟨by omega, hpoint⟩
          exact reliable_recv hreceiving hcan
      | false =>
          refine absurd ?_ h
          have hbytes := hw.bytes
          rw [hpoint] at hrest
          have hunread : s.sender.unread = [] := by
            rw [hpoint] at hbytes
            exact hrest
          have hleft : PacketPoint.done.left = [] := rfl
          rw [hpoint, hunread, hleft, List.flatten_nil, List.append_nil, List.append_nil] at hbytes
          exact ⟨hpoint, hreceiving, by rw [receivedBytes_of_received hr hreceiving, hbytes]⟩

theorem inevitable_complete (hw : Whole content start) :
    (reliableTransfer start).Inevitable (Complete content) (startTransfer start) := by
  refine System.inevitable_of_measure (I := fun s => Whole content s.sender ∧ Received s)
    Transfer.callsLeft ?_ ?_ _ ⟨hw, received_start⟩
  · intro s ⟨hs, hr⟩ h
    exact reliable_goes_on hs hr h
  · intro s l s' ⟨hs, hr⟩ _ hstep
    refine ⟨⟨?_, received_step hr hstep⟩, callsLeft_lt hs hr hstep⟩
    rcases transferStep_cases hstep with ⟨lbl, x, -, hok, hx, rfl⟩ | ⟨bytes, -, -, rfl⟩
    · exact whole_step hs hx hok
    · exact hs

/-- What `ReceiveFile` leaves at its path. -/
def Pushed (content : Str) (s : Transfer) : Prop :=
  ∀ t me f, ((ensureDir t (receiveDir me)).openTrunc (receivePath me f)).isSome →
    (receiveFile t me f s.received).readFile (receivePath me f) = some content

/-- What `HandleObtainResponse` leaves at its path, behind what was there. -/
def Obtains (content : Str) (s : Transfer) : Prop :=
  ∀ t me obtainNum f p held,
    (ensureDir t (receiveDir me)).appendable (obtainPath me obtainNum f) = some (p, held) →
    (handleObtainResponse t me obtainNum f s.received).tree.readFile
      (obtainPath me obtainNum f) = some (held ++ content)

/-- Every transfer whose calls do not fail comes to its end, and then the bytes written are
those of the file. -/
theorem chunked_transfer_exact (content : Str) :
    (reliableTransfer (sendFileLoop (freads content))).Inevitable
        (fun s => Complete content s ∧ Obtains content s)
        (startTransfer (sendFileLoop (freads content))) ∧
      (reliableTransfer (handlePushResponseLoop (freads content))).Inevitable
        (fun s => Complete content s ∧ Pushed content s)
        (startTransfer (handlePushResponseLoop (freads content))) := by
  have hcomplete := inevitable_complete (whole_start content)
  constructor
  · refine hcomplete.imp ?_
    intro s h
    refine ⟨h, ?_⟩
    intro t me obtainNum f p held hopen
    exact readFile_handleObtainResponse.mpr ⟨p, held, hopen, by rw [h.bytes]⟩
  · refine hcomplete.imp ?_
    intro s h
    refine ⟨h, ?_⟩
    intro t me f hopen
    rw [readFile_receiveFile hopen, h.bytes]

end Exact

/-! ## Failing calls -/

section Failing

variable {content : Str} {start s s' : PacketLoop} {l : PacketLabel}

/-- No `send` takes any bytes after one that failed. -/
def NoLaterSuccess (s : PacketLoop) (l : PacketLabel) : Prop :=
  ∀ sent, l = .send sent → 0 < sent → ∀ result ∈ s.results, 0 < result

/-- Either no call failed and nothing was lost, or one did and a front part was sent. -/
def SentFront (content : Str) (s : PacketLoop) : Prop :=
  ((∀ result ∈ s.results, 0 < result) ∧ Whole content s) ∨
    ((∃ result ∈ s.results, result ≤ 0) ∧ s.sent <+: content)

theorem SentFront.sent (h : SentFront content s) : s.sent <+: content := by
  rcases h with ⟨-, hw⟩ | ⟨-, h⟩
  · rw [← hw.bytes, List.append_assoc]
    exact List.prefix_append _ _
  · exact h

theorem sentFront_step (h : SentFront content s) (hno : NoLaterSuccess s l)
    (hstep : packetStep s l = some s') : SentFront content s' := by
  cases l with
  | fread =>
      obtain ⟨hsent, hresults⟩ := sent_fread hstep
      rcases h with ⟨hall, hw⟩ | ⟨hfail, h⟩
      · left
        rw [hresults]
        exact ⟨hall, whole_step hw hstep nofun⟩
      · right
        rw [hresults, hsent]
        exact ⟨hfail, h⟩
  | send sent =>
      by_cases hpos : 0 < sent
      · -- a success: so far there were only those
        have hall := hno sent rfl hpos
        rcases h with ⟨-, hw⟩ | ⟨⟨result, hmem, hle⟩, -⟩
        · left
          refine ⟨?_, whole_step hw hstep ?_⟩
          · rw [results_send hstep]
            intro result hmem
            rcases List.mem_append.mp hmem with hmem | hmem
            · exact hall result hmem
            · rw [List.mem_singleton.mp hmem]
              exact hpos
          · intro sent' heq
            cases heq
            exact hpos
        · exact absurd (hall result hmem) (by omega)
      · right
        have hle : sent ≤ 0 := by omega
        rw [results_send hstep, sent_failed hstep hle]
        exact ⟨⟨sent, List.mem_append_right _ List.mem_cons_self, hle⟩, h.sent⟩

/-- As long as no `send` succeeds after one that failed, what was sent is a front part of the
file. -/
theorem sent_prefix (hstart : start = sendFileLoop (freads content) ∨
      start = handlePushResponseLoop (freads content))
    (hs : ((sending start).restrict NoLaterSuccess).Reachable s) : s.sent <+: content := by
  have hinit : start = sendFileLoop (freads content) := by
    rcases hstart with h | h
    · exact h
    · exact h
  have hfront : SentFront content s := by
    refine hs.invariant ?_ ?_
    · intro s hs
      obtain rfl := hs
      rw [hinit]
      exact .inl ⟨nofun, whole_start content⟩
    · intro s l s' _ h hl
      exact sentFront_step h hl.1 hl.2
  exact hfront.sent

def fullPacket : Str := List.replicate fileTransferPacketSize 'a'

theorem length_fullPacket : fullPacket.length = fileTransferPacketSize := List.length_replicate

theorem freads_fullPacket : freads (fullPacket ++ ['b']) = [fullPacket, ['b']] := by
  rw [freads_eq, List.take_left' length_fullPacket, List.drop_left' length_fullPacket, if_neg,
    freads_eq]
  · rfl
  · rw [List.length_append, length_fullPacket]
    omega

/-- The first packet is read. -/
theorem fread_fullPacket :
    packetStep (sendFileLoop (freads (fullPacket ++ ['b']))) .fread = some
      ⟨[['b']], .send (pad fileTransferPacketSize '\x00' fullPacket) fileTransferPacketSize 0,
        [], []⟩ := by
  rw [freads_fullPacket, packetStep_fread rfl rfl, length_fullPacket]
  rfl

/-- A first byte of the full packet was sent, the next `send` failed, and so did the one for the
last packet. -/
def givenUp : PacketLoop := ⟨[], .done, [1, -1, -1], ['a']⟩

theorem sent_prefix_givenUp : givenUp.sent <+: fullPacket ++ ['b'] := by
  refine sent_prefix (.inl rfl) (s := givenUp) ?_
  have hpart : packetStep
      ⟨[['b']], .send (pad fileTransferPacketSize '\x00' fullPacket) fileTransferPacketSize 0,
        [], []⟩ (.send 1) = some
      ⟨[['b']], .send (pad fileTransferPacketSize '\x00' fullPacket) fileTransferPacketSize 1,
        [1], ['a']⟩ := rfl
  have hfailed : packetStep
      ⟨[['b']], .send (pad fileTransferPacketSize '\x00' fullPacket) fileTransferPacketSize 1,
        [1], ['a']⟩ (.send (-1)) = some ⟨[['b']], .read, [1, -1], ['a']⟩ := rfl
  have hlast : packetStep ⟨[['b']], .read, [1, -1], ['a']⟩ .fread = some
      ⟨[], .send (pad fileTransferPacketSize '\x00' ['b']) 1 0, [1, -1], ['a']⟩ := rfl
  have hagain : packetStep
      ⟨[], .send (pad fileTransferPacketSize '\x00' ['b']) 1 0, [1, -1], ['a']⟩ (.send (-1)) =
      some givenUp := rfl
  exact .step (.send (-1))
    (.step .fread
      (.step (.send (-1))
        (.step (.send 1)
          (.step .fread (.init rfl) ⟨nofun, fread_fullPacket⟩)
          ⟨fun _ _ _ => List.forall_mem_nil _, hpart⟩)
        ⟨fun _ hl hpos => absurd hpos (by cases hl; decide), hfailed⟩)
      ⟨nofun, hlast⟩)
    ⟨fun _ hl hpos => absurd hpos (by cases hl; decide), hagain⟩

/-- A `send` that fails in a full packet, and one that succeeds after it, leave a hole. -/
theorem send_after_failure : ¬∀ content s,
    (sending (sendFileLoop (freads content))).Reachable s → s.sent <+: content := by
  intro hall
  have hfailed : packetStep
      ⟨[['b']], .send (pad fileTransferPacketSize '\x00' fullPacket) fileTransferPacketSize 0,
        [], []⟩ (.send (-1)) = some ⟨[['b']], .read, [-1], []⟩ := rfl
  have hlast : packetStep ⟨[['b']], .read, [-1], []⟩ .fread = some
      ⟨[], .send (pad fileTransferPacketSize '\x00' ['b']) 1 0, [-1], []⟩ := rfl
  have hsent : packetStep
      ⟨[], .send (pad fileTransferPacketSize '\x00' ['b']) 1 0, [-1], []⟩ (.send 1) =
      some ⟨[], .done, [-1, 1], ['b']⟩ := rfl
  have hrun : (sending (sendFileLoop (freads (fullPacket ++ ['b'])))).Reachable
      ⟨[], .done, [-1, 1], ['b']⟩ :=
    .step _ (.step _ (.step _ (.step _ (.init rfl) fread_fullPacket) hfailed) hlast) hsent
  obtain ⟨rest, hrest⟩ := hall _ _ hrun
  have hhead : some 'b' = some 'a' := congrArg List.head? hrest
  exact absurd hhead (by decide)

end Failing

end P2PFileSharing
