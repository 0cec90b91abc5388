import P2PFileSharing.Model.Packets
import P2PFileSharing.Proofs.FileTransfer

/-!
# What the loops of a transfer keep

Nothing is lost on the sending side as long as no `send` fails: what was sent, what is left
of the packet and what is still to be read make up the file. The last packet read is the
first one that is not full, so the loop ends with nothing left. The receiver has taken a
front part of what was sent, in pieces, and ends when there is no more to come.
-/

namespace P2PFileSharing

/-! ## The sending side -/

/-- What of a packet was not sent yet. -/
def PacketPoint.left : PacketPoint → Str
  | .send msgBuffer readSize bytesSent => (msgBuffer.take readSize).drop bytesSent
  | _ => []

/-- After a packet of some size: a full one leaves packets to read. -/
def RestAfter (readSize : Nat) (unread : List Str) : Prop :=
  if readSize < fileTransferPacketSize then unread = [] else ∃ rest, unread = freads rest

/-- What is left to read at a point of the loop. -/
def RestAt (unread : List Str) : PacketPoint → Prop
  | .read => ∃ rest, unread = freads rest
  | .send msgBuffer readSize bytesSent =>
      bytesSent < readSize ∧ readSize ≤ msgBuffer.length ∧ RestAfter readSize unread
  | .done => unread = []

/-- Nothing was lost. -/
structure Whole (content : Str) (s : PacketLoop) : Prop where
  bytes : s.sent ++ s.point.left ++ s.unread.flatten = content
  rest : RestAt s.unread s.point

section Sender

variable {content msgBuffer : Str} {unread : List Str} {readSize bytesSent : Nat}
  {s s' : PacketLoop} {l : PacketLabel}

/-- What a call of the sending side does. -/
theorem packetStep_cases (h : packetStep s l = some s') :
    (l = .fread ∧ s.point = .read ∧ ∃ packet rest, s.unread = packet :: rest ∧
      s' = { s with
        unread := rest
        point := sendLoop (pad fileTransferPacketSize '\x00' packet) packet.length 0 }) ∨
    ∃ sent msgBuffer readSize bytesSent, l = .send sent ∧
      s.point = .send msgBuffer readSize bytesSent ∧
      ((sent ≤ 0 ∧
          s' = { s with point := afterPacket readSize, results := s.results ++ [sent] }) ∨
        (0 < sent ∧ sent.toNat ≤ readSize - bytesSent ∧
          s' = { s with
            point := sendLoop msgBuffer readSize (bytesSent + sent.toNat)
            results := s.results ++ [sent]
            sent := s.sent ++ (msgBuffer.drop bytesSent).take sent.toNat })) := by
  cases l with
  | fread =>
      rw [packetStep] at h
      split at h
      · next packet rest hpoint hunread =>
          left
          exact ⟨rfl, hpoint, packet, rest, hunread, (Option.some.inj h).symm⟩
      · cases h
  | send sent =>
      rw [packetStep] at h
      split at h
      · next b r k hpoint =>
          right
          refine ⟨sent, b, r, k, rfl, hpoint, ?_⟩
          split at h
          · next hle => exact .inl ⟨hle, (Option.some.inj h).symm⟩
          · next hpos =>
              split at h
              · next hroom => exact .inr ⟨by omega, hroom, (Option.some.inj h).symm⟩
              · cases h
      · cases h

theorem packetStep_fread {packet : Str} {rest : List Str} (hpoint : s.point = .read)
    (hunread : s.unread = packet :: rest) :
    packetStep s .fread = some
      { s with
        unread := rest
        point := sendLoop (pad fileTransferPacketSize '\x00' packet) packet.length 0 } := by
  rw [packetStep]
  simp only [hpoint, hunread]

theorem packetStep_send {sent : Int} (hpoint : s.point = .send msgBuffer readSize bytesSent)
    (hpos : 0 < sent) (hroom : sent.toNat ≤ readSize - bytesSent) :
    packetStep s (.send sent) = some
      { s with
        point := sendLoop msgBuffer readSize (bytesSent + sent.toNat)
        results := s.results ++ [sent]
        sent := s.sent ++ (msgBuffer.drop bytesSent).take sent.toNat } := by
  rw [packetStep]
  simp only [hpoint]
  rw [if_neg (by omega), if_pos hroom]

theorem left_afterPacket : (afterPacket readSize).left = [] := by
  rw [afterPacket]
  split
  · rfl
  · rfl

theorem restAt_afterPacket (h : RestAfter readSize unread) :
    RestAt unread (afterPacket readSize) := by
  rw [RestAfter] at h
  rw [afterPacket]
  split at h
  · next hlt =>
      rw [if_pos hlt]
      exact h
  · next hge =>
      rw [if_neg hge]
      exact h

theorem left_sendLoop :
    (sendLoop msgBuffer readSize bytesSent).left = (msgBuffer.take readSize).drop bytesSent := by
  rw [sendLoop]
  split
  · rfl
  · next hge =>
      rw [left_afterPacket, List.drop_eq_nil_of_le]
      rw [List.length_take]
      omega

theorem restAt_sendLoop (hbuf : readSize ≤ msgBuffer.length) (h : RestAfter readSize unread) :
    RestAt unread (sendLoop msgBuffer readSize bytesSent) := by
  rw [sendLoop]
  split
  · next hlt => exact ⟨hlt, hbuf, h⟩
  · exact restAt_afterPacket h

theorem whole_start (content : Str) : Whole content (sendFileLoop (freads content)) where
  bytes := by
    show [] ++ [] ++ (freads content).flatten = content
    rw [flatten_freads]
    rfl
  rest := ⟨content, rfl⟩

/-- The packet at the front of what is left to read. -/
theorem freads_front {rest : List Str} {packet c : Str} (h : packet :: rest = freads c) :
    packet.length ≤ fileTransferPacketSize ∧ RestAfter packet.length rest := by
  rw [freads_eq] at h
  injection h with hpacket hrest
  have hlen : packet.length = min fileTransferPacketSize c.length := by
    rw [hpacket, List.length_take]
  refine ⟨by omega, ?_⟩
  rw [RestAfter]
  split
  · next hlt =>
      rw [hrest, if_pos]
      omega
  · next hge =>
      rw [if_neg (by omega)] at hrest
      exact ⟨_, hrest⟩

/-- A call that does not fail loses nothing. -/
theorem whole_step (h : Whole content s) (hstep : packetStep s l = some s')
    (hl : ∀ sent, l = .send sent → 0 < sent) : Whole content s' := by
  obtain ⟨hbytes, hrest⟩ := h
  rcases packetStep_cases hstep with ⟨rfl, hpoint, packet, rest, hunread, rfl⟩ |
    ⟨sent, b, r, k, rfl, hpoint, hcase⟩
  · rw [hpoint, hunread] at hrest hbytes
    obtain ⟨c, hc⟩ := hrest
    obtain ⟨hlen, hafter⟩ := freads_front hc
    have hread : PacketPoint.read.left = [] := rfl
    have hpad : (pad fileTransferPacketSize '\x00' packet).take packet.length = packet := by
      rw [take_pad (Nat.le_refl _), List.take_length]
    constructor
    · show s.sent ++ (sendLoop _ _ 0).left ++ rest.flatten = content
      rw [left_sendLoop, hpad, List.drop_zero, ← hbytes, hread, List.flatten_cons, List.append_nil,
        List.append_assoc]
    · refine restAt_sendLoop ?_ hafter
      rw [length_pad hlen]
      exact hlen
  · rcases hcase with ⟨hle, rfl⟩ | ⟨hpos, hroom, rfl⟩
    · exact absurd (hl sent rfl) (by omega)
    · rw [hpoint] at hrest hbytes
      obtain ⟨hk, hbuf, hafter⟩ := hrest
      have htaken : (b.drop k).take sent.toNat = ((b.take r).drop k).take sent.toNat := by
        rw [List.drop_take, List.take_take, Nat.min_eq_left hroom]
      constructor
      · show s.sent ++ (b.drop k).take sent.toNat ++ (sendLoop b r (k + sent.toNat)).left ++
          s.unread.flatten = content
        rw [left_sendLoop, htaken, ← List.drop_drop, List.append_assoc s.sent,
          List.take_append_drop]
        exact hbytes
      · exact restAt_sendLoop hbuf hafter

/-- A call that fails sends nothing. -/
theorem sent_failed {sent : Int} (hstep : packetStep s (.send sent) = some s') (hle : sent ≤ 0) :
    s'.sent = s.sent := by
  rcases packetStep_cases hstep with ⟨hl, -⟩ | ⟨sent', b, r, k, hl, hpoint, hcase⟩
  · cases hl
  · cases hl
    rcases hcase with ⟨-, rfl⟩ | ⟨hpos, -, -⟩
    · rfl
    · omega

theorem results_send {sent : Int} (hstep : packetStep s (.send sent) = some s') :
    s'.results = s.results ++ [sent] := by
  rcases packetStep_cases hstep with ⟨hl, -⟩ | ⟨sent', b, r, k, hl, hpoint, hcase⟩
  · cases hl
  · cases hl
    rcases hcase with ⟨-, rfl⟩ | ⟨-, -, rfl⟩
    · rfl
    · rfl

theorem sent_fread (hstep : packetStep s .fread = some s') :
    s'.sent = s.sent ∧ s'.results = s.results := by
  rcases packetStep_cases hstep with ⟨-, -, packet, rest, -, rfl⟩ | ⟨sent, b, r, k, hl, -⟩
  · exact ⟨rfl, rfl⟩
  · cases hl

end Sender

/-! ## The receiving side -/

/-- The receiver has a front part of what was sent, in pieces, and has ended only if that is
all there will be. -/
structure Received (s : Transfer) : Prop where
  taken : s.taken ≤ s.sender.sent.length
  chunks : ∃ chunks : List Str, (∀ chunk ∈ chunks, chunk ≠ []) ∧
    chunks.flatten = s.sender.sent.take s.taken ∧
    s.received = chunks.map .data ++ if s.receiving then [] else [.data []]
  ended : s.receiving = false → s.taken = s.sender.sent.length ∧ s.sender.point = .done

section Receiver

variable {start : PacketLoop} {s s' : Transfer} {l : TransferLabel}

theorem received_start : Received (startTransfer start) where
  taken := Nat.zero_le _
  chunks := ⟨[], nofun, rfl, rfl⟩
  ended := nofun

/-- What a call that does not fail does. -/
theorem transferStep_cases (h : (reliableTransfer start).step s l s') :
    (∃ lbl x, l = .sender lbl ∧ (∀ sent, lbl = .send sent → 0 < sent) ∧
      packetStep s.sender lbl = some x ∧ s' = { s with sender := x }) ∨
    ∃ bytes, s.receiving = true ∧ s.CanReceive bytes ∧
      s' = { s with
        taken := s.taken + bytes.length
        received := s.received ++ [.data bytes]
        receiving := !bytes.isEmpty } := by
  obtain ⟨hok, hstep⟩ := h
  change transferStep s l = some s' at hstep
  cases l with
  | sender lbl =>
      left
      rw [transferStep] at hstep
      split at hstep
      · next x hx =>
          refine ⟨lbl, x, rfl, ?_, hx, (Option.some.inj hstep).symm⟩
          intro sent hl
          obtain rfl := hl
          exact hok
      · cases hstep
  | recv result =>
      right
      cases result with
      | failed => exact absurd rfl hok
      | data bytes =>
          rw [transferStep] at hstep
          split at hstep
          · next hcan => exact ⟨bytes, hcan.1, hcan.2, (Option.some.inj hstep).symm⟩
          · cases hstep

/-- What was sent stays sent. -/
theorem sent_grows {x y : PacketLoop} {lbl : PacketLabel} (h : packetStep x lbl = some y) :
    x.sent <+: y.sent := by
  rcases packetStep_cases h with ⟨-, -, packet, rest, -, rfl⟩ | ⟨sent, b, r, k, -, -, hcase⟩
  · exact List.prefix_refl _
  · rcases hcase with ⟨-, rfl⟩ | ⟨-, -, rfl⟩
    · exact List.prefix_refl _
    · exact List.prefix_append _ _

theorem ne_done_of_step {x y : PacketLoop} {lbl : PacketLabel} (h : packetStep x lbl = some y) :
    x.point ≠ .done := by
  intro hdone
  rcases packetStep_cases h with ⟨-, hpoint, -⟩ | ⟨sent, b, r, k, -, hpoint, -⟩
  · rw [hdone] at hpoint
    cases hpoint
  · rw [hdone] at hpoint
    cases hpoint

theorem received_step (h : Received s) (hstep : (reliableTransfer start).step s l s') :
    Received s' := by
  obtain ⟨htaken, ⟨chunks, hne, hflat, hreceived⟩, hended⟩ := h
  rcases transferStep_cases hstep with ⟨lbl, x, -, -, hx, rfl⟩ |
    ⟨bytes, hreceiving, ⟨hfront, hsize, hclosed⟩, rfl⟩
  · obtain ⟨more, hmore⟩ := sent_grows hx
    refine ⟨?_, ⟨chunks, hne, ?_, hreceived⟩, ?_⟩
    · show s.taken ≤ x.sent.length
      rw [← hmore, List.length_append]
      omega
    · show chunks.flatten = x.sent.take s.taken
      rw [hflat, ← hmore, List.take_append_of_le_length htaken]
    · intro hend
      exact absurd (hended hend).2 (ne_done_of_step hx)
  · have hlen := hfront.length_le
    rw [List.length_drop] at hlen
    have hbytes : bytes = (s.sender.sent.drop s.taken).take bytes.length :=
      List.prefix_iff_eq_take.mp hfront
    have hnext : s.sender.sent.take (s.taken + bytes.length) =
        s.sender.sent.take s.taken ++ bytes := by
      rw [List.take_add, ← hbytes]
    rw [hreceiving, if_pos rfl, List.append_nil] at hreceived
    by_cases hnil : bytes = []
    · refine ⟨?_, ⟨chunks, hne, ?_, ?_⟩, ?_⟩
      · show s.taken + bytes.length ≤ s.sender.sent.length
        omega
      · show chunks.flatten = s.sender.sent.take (s.taken + bytes.length)
        rw [hnext, hnil, List.append_nil, hflat]
      · show s.received ++ [.data bytes] = _
        rw [hreceived, hnil]
        rfl
      · intro _
        obtain ⟨hall, hdone⟩ := hclosed hnil
        refine ⟨?_, hdone⟩
        show s.taken + bytes.length = s.sender.sent.length
        rw [hnil, List.length_nil, Nat.add_zero, hall]
    · have hgoing : (!bytes.isEmpty) = true := by
        rw [Bool.not_eq_true', List.isEmpty_eq_false_iff]
        exact hnil
      refine ⟨?_, ⟨chunks ++ [bytes], ?_, ?_, ?_⟩, ?_⟩
      · show s.taken + bytes.length ≤ s.sender.sent.length
        omega
      · intro chunk hchunk
        rcases List.mem_append.mp hchunk with hchunk | hchunk
        · exact hne chunk hchunk
        · rw [List.mem_singleton.mp hchunk]
          exact hnil
      · show (chunks ++ [bytes]).flatten = s.sender.sent.take (s.taken + bytes.length)
        rw [hnext, List.flatten_append, hflat, List.flatten_singleton]
      · show s.received ++ [.data bytes] = _ ++ if (!bytes.isEmpty) = true then _ else _
        rw [hreceived, if_pos hgoing, List.map_append, List.append_nil]
        rfl
      · intro hend
        exact absurd (hgoing.symm.trans hend) (by decide)

/-- When the receiver has ended, it has everything. -/
theorem receivedBytes_of_received (h : Received s) (hend : s.receiving = false) :
    receivedBytes s.received = s.sender.sent := by
  obtain ⟨-, ⟨chunks, hne, hflat, hreceived⟩, hended⟩ := h
  have hbytes : receivedBytes (chunks.map .data ++ [.data []]) = chunks.flatten := by
    rw [receivedBytes_append hne]
    exact List.append_nil _
  rw [hend, if_neg (by decide)] at hreceived
  rw [hreceived, hbytes, hflat, (hended hend).1, List.take_length]

end Receiver

end P2PFileSharing
