import P2PFileSharing.Guarantees.Packets
import P2PFileSharing.Guarantees.Segments
import P2PFileSharing.Lib.Progress
import P2PFileSharing.Model.Session

/-!
# A transfer from request to end

Neither side of a session waits for good: the server answers a request with its loop or with its
notice, and the client sends when it has the notice. Once one side is in its loop over `send`,
the session is a transfer as `Proofs/Packets.lean` has it, so all that was read is received.
-/

namespace P2PFileSharing

/-! ## Requests -/

section Request

variable {f frame : Str} {reqType : ERequestType}

theorem requestFrame_of_fits (h : (createRequestHeader reqType f).length ≤ msgBufSize) :
    requestFrame reqType f = some (pad msgBufSize '\x00' (createRequestHeader reqType f)) := by
  rw [requestFrame]
  exact if_pos h

/-- `HandleClient` finds the request in a whole frame. -/
theorem parseRequest_frame (hf : '\n' ∉ f) (hframe : requestFrame reqType f = some frame) :
    parseRequest frame = .ok (reqType.toInt, f) ∧ frame.length = msgBufSize := by
  unfold requestFrame at hframe
  dsimp only at hframe
  split at hframe
  · next hfit =>
      refine ⟨?_, by rw [← Option.some.inj hframe, length_pad hfit]⟩
      rw [← Option.some.inj hframe, pad]
      refine parseRequest_header reqType hf ?_
      intro hmem
      exact absurd (List.eq_of_mem_replicate hmem) (by decide)
  · cases hframe

end Request

/-! ## The loops -/

section Loops

variable {start : PacketLoop} {tr tr' : Transfer} {content : Str} {l : PacketLabel}
  {y : PacketLoop} {result : RecvResult}

/-- What is under way of what the sender sent. -/
def Transfer.underWay (tr : Transfer) : Str := tr.sender.sent.drop tr.taken

/-- What a call of the sending loops is to the transfer. -/
theorem transfer_sender (hw : Whole content tr.sender) (hr : Received tr)
    (hok : TransferLabel.Succeeds (.sender l)) (h : packetStep tr.sender l = some y)
    (htr : tr' = { tr with sender := y }) :
    Whole content y ∧ Received tr' ∧ tr'.callsLeft < tr.callsLeft ∧
      tr'.underWay = tr.underWay ++ y.sentSince tr.sender := by
  have hstep : (reliableTransfer tr.sender).step tr (.sender l) tr' := by
    refine ⟨hok, ?_⟩
    show transferStep tr _ = some _
    rw [transferStep, h, htr]
  refine ⟨whole_step hw h ?_, received_step hr hstep, callsLeft_lt hw hr hstep, ?_⟩
  · rintro sent rfl
    exact hok
  · obtain ⟨more, hmore⟩ := sent_grows h
    rw [htr]
    show y.sent.drop tr.taken = tr.sender.sent.drop tr.taken ++ y.sent.drop tr.sender.sent.length
    rw [← hmore, List.drop_left, List.drop_append_of_le_length hr.taken]

/-- What a call of the receiving loop is to the transfer. -/
theorem transfer_recv (hw : Whole content tr.sender) (hr : Received tr)
    (hreceiving : tr.receiving = true) (hok : result ≠ .failed)
    (h : MayReturn tr.underWay (tr.sender.point = .done) fileTransferPacketSize result)
    (htr : tr' =
      { tr with
        taken := tr.taken + result.bytes.length
        received := tr.received ++ [result]
        receiving := !result.isLast }) :
    Received tr' ∧ tr'.callsLeft < tr.callsLeft ∧
      tr'.underWay = tr.underWay.drop result.bytes.length := by
  cases result with
  | failed => exact absurd rfl hok
  | data bytes =>
      obtain ⟨hfront, hroom, hlast⟩ := h
      have hcan : tr.CanReceive bytes := by
        refine ⟨hfront, hroom, fun hnil => ?_⟩
        obtain ⟨hall, hdone⟩ := hlast hnil
        have hlen := List.drop_eq_nil_iff.mp hall
        have htaken := hr.taken
        exact ⟨by omega, of_decide_eq_true hdone⟩
      have hstep : (reliableTransfer tr.sender).step tr (.recv (.data bytes)) tr' := by
        rw [htr]
        exact ⟨hok, if_pos ⟨hreceiving, hcan⟩⟩
      refine ⟨received_step hr hstep, callsLeft_lt hw hr hstep, ?_⟩
      rw [htr]
      exact List.drop_drop.symm

/-- Until all was received there is a call on one of the sides. -/
theorem transfer_goes_on (hw : Whole content tr.sender) (hr : Received tr)
    (h : ¬P2PFileSharing.Complete content tr) :
    (∃ l y, TransferLabel.Succeeds (.sender l) ∧ packetStep tr.sender l = some y) ∨
      ∃ bytes, tr.receiving = true ∧
        MayReturn tr.underWay (tr.sender.point = .done) fileTransferPacketSize (.data bytes) := by
  obtain ⟨l, tr', hstep⟩ : ∃ l tr', (reliableTransfer tr.sender).step tr l tr' :=
    reliable_goes_on hw hr h
  rcases transferStep_cases hstep with ⟨lbl, y, rfl, -, hy, -⟩ | ⟨bytes, hreceiving, hcan, -⟩
  · exact .inl ⟨lbl, y, hstep.1, hy⟩
  · refine .inr ⟨bytes, hreceiving, hcan.1, hcan.2.1, fun hnil => ?_⟩
    obtain ⟨hall, hdone⟩ := hcan.2.2 hnil
    exact ⟨List.drop_eq_nil_of_le (Nat.le_of_eq hall.symm), decide_eq_true hdone⟩

/-- When the receiver has ended, the transfer is complete. -/
theorem complete_of_ended (hw : Whole content tr.sender) (hr : Received tr)
    (h : tr.receiving = false) : P2PFileSharing.Complete content tr := by
  by_contra hnot
  rcases transfer_goes_on hw hr hnot with ⟨l, y, -, hy⟩ | ⟨bytes, hreceiving, -⟩
  · exact ne_done_of_step hy (hr.ended h).2
  · rw [h] at hreceiving
    cases hreceiving

end Loops

/-! ## Calls -/

section Calls

variable {x : SessionSetup} {s s' : Session} {frame : Str} {result : RecvResult} {sent : Int}

/-- Nothing is received of nothing, as long as more may come. -/
theorem not_mayReturn {room : Nat} (hok : result ≠ .failed) :
    ¬MayReturn [] false room result := by
  cases result with
  | failed => exact absurd rfl hok
  | data bytes =>
      intro h
      obtain ⟨hfront, -, hend⟩ := h
      exact absurd (hend (List.prefix_nil.mp hfront)).2 Bool.false_ne_true

/-- Nothing but the end is received of nothing. -/
theorem eq_nil_of_mayReturn {room : Nat} {shut : Bool} (hok : result ≠ .failed)
    (h : MayReturn [] shut room result) : result = .data [] := by
  cases result with
  | failed => exact absurd rfl hok
  | data bytes => rw [List.prefix_nil.mp h.1]

/-- The request is sent whole. -/
theorem sessionStep_request (hframe : requestFrame x.reqType x.filename = some frame)
    (hlen : frame.length = msgBufSize) :
    sessionStep x startSession (.request msgBufSize) =
      some { startSession with client := x.afterRequest, toServer := frame } := by
  simp only [sessionStep, startSession, hframe]
  rw [if_neg (by decide), if_pos (by decide), List.nil_append, Int.toNat_natCast,
    List.take_of_length_le (Nat.le_of_eq hlen)]

/-- The first call of a session. -/
theorem started_cases {l : SessionLabel} (hframe : requestFrame x.reqType x.filename = some frame)
    (hlen : frame.length = msgBufSize) (h : (reliableSession x).step startSession l s') :
    s' = { startSession with client := x.afterRequest, toServer := frame } := by
  obtain ⟨hok, hstep⟩ := h
  change sessionStep x startSession l = some s' at hstep
  cases l with
  | request sent =>
      obtain rfl : sent = msgBufSize := hok
      rw [sessionStep_request hframe hlen] at hstep
      exact (Option.some.inj hstep).symm
  | handle result =>
      -- nothing was sent yet
      obtain ⟨⟨-, hmay⟩, -⟩ := Option.ite_none_right_eq_some.mp hstep
      refine absurd hmay (not_mayReturn ?_)
      rintro rfl
      have hzero : ([] : Str).length = msgBufSize := hok
      exact absurd hzero (by decide)
  | notify | awaitStart | clientSend | serverSend | clientRecv | serverRecv =>
      simp [sessionStep, startSession] at hstep

/-- The request is received whole. -/
theorem sessionStep_handle (hserver : s.server = .request) (hsent : s.toServer = frame)
    (hlen : frame.length = msgBufSize) :
    sessionStep x s (.handle (.data frame)) =
      some { s with server := x.handle (.data frame), toServer := [] } := by
  have hne : frame ≠ [] := List.ne_nil_of_length_pos (by rw [hlen]; decide)
  have hall : MayReturn s.toServer s.client.shut msgBufSize (.data frame) := by
    rw [hsent]
    exact ⟨List.prefix_refl _, Nat.le_of_eq hlen, fun hnil => absurd hnil hne⟩
  rw [sessionStep, if_pos ⟨hserver, hall⟩, hsent]
  show some { s with server := _, toServer := frame.drop frame.length } = _
  rw [List.drop_length]

theorem handle_cases (hok : result.bytes.length = msgBufSize) (hsent : s.toServer = frame)
    (hlen : frame.length = msgBufSize) (h : sessionStep x s (.handle result) = some s') :
    s' = { s with server := x.handle (.data frame), toServer := [] } := by
  obtain ⟨⟨-, hmay⟩, hnext⟩ := Option.ite_none_right_eq_some.mp h
  cases result with
  | failed =>
      have hzero : ([] : Str).length = msgBufSize := hok
      exact absurd hzero (by decide)
  | data bytes =>
      rw [hsent] at hmay
      obtain rfl : bytes = frame := hmay.1.eq_of_length (hok.trans hlen.symm)
      rw [← Option.some.inj hnext, hsent]
      show Session.mk _ _ (bytes.drop bytes.length) _ _ = _
      rw [List.drop_length]

theorem sessionStep_serverSend {loop y : PacketLoop} {l : PacketLabel}
    (hserver : s.server = .sending loop) (h : packetStep loop l = some y) :
    sessionStep x s (.serverSend l) =
      some { s with server := .sending y, toClient := s.toClient ++ y.sentSince loop } := by
  simp only [sessionStep, hserver, h, Option.map_some]

theorem sessionStep_clientRecv (hclient : s.client = .receiving)
    (h : MayReturn s.toClient s.server.shut fileTransferPacketSize result) :
    sessionStep x s (.clientRecv result) =
      some
        { s with
          client := if result.isLast then .closed else .receiving
          toClient := s.toClient.drop result.bytes.length
          received := s.received ++ [result] } :=
  if_pos ⟨hclient, h⟩

theorem sessionStep_clientSend {loop y : PacketLoop} {l : PacketLabel}
    (hclient : s.client = .sending loop) (h : packetStep loop l = some y) :
    sessionStep x s (.clientSend l) =
      some { s with client := .sending y, toServer := s.toServer ++ y.sentSince loop } := by
  simp only [sessionStep, hclient, h, Option.map_some]

theorem sessionStep_serverRecv {f : Str} (hserver : s.server = .receiving f)
    (h : MayReturn s.toServer s.client.shut fileTransferPacketSize result) :
    sessionStep x s (.serverRecv result) =
      some
        { s with
          server := if result.isLast then .closed (some f) else .receiving f
          toServer := s.toServer.drop result.bytes.length
          received := s.received ++ [result] } := by
  simp only [sessionStep, hserver]
  rw [if_pos h]

end Calls

/-! ## Downloads -/

/-- Both sides are done, and so many bytes were received. -/
structure Session.Complete (content : Str) (s : Session) : Prop where
  client : s.client.shut = true
  server : s.server.shut = true
  bytes : receivedBytes s.received = content

/-- The states of a download whose calls do not fail, and how many calls are left at most. -/
inductive Downloading (content frame : Str) : Session → Nat → Prop
  | request : Downloading content frame startSession
      ((startTransfer (sendFileLoop (freads content))).callsLeft + 2)
  | requested : Downloading content frame ⟨.receiving, .request, frame, [], []⟩
      ((startTransfer (sendFileLoop (freads content))).callsLeft + 1)
  | sending (tr : Transfer) (hw : Whole content tr.sender) (hr : Received tr) :
      Downloading content frame
        ⟨if tr.receiving then .receiving else .closed, .sending tr.sender, [], tr.underWay,
          tr.received⟩ tr.callsLeft
  | missing (hnone : content = []) :
      Downloading content frame ⟨.receiving, .closed none, [], [], []⟩ 1
  | missed (hnone : content = []) :
      Downloading content frame ⟨.closed, .closed none, [], [], [.data []]⟩ 0

section Download

variable {x : SessionSetup} {content frame : Str} {s s' : Session} {l : SessionLabel} {n : Nat}

/-- What the worker finds of a file: what `fread` will return, or that it cannot be opened. -/
theorem sendFile_cases (t : FileTree) (f : Str) :
    sendFile t f = some (freads ((t.readFile (sharedPath f)).getD [])) ∨
      sendFile t f = none ∧ t.readFile (sharedPath f) = none := by
  unfold sendFile readShared FileTree.readFile
  cases t.lookup (sharedPath f) with
  | none => exact .inr ⟨rfl, rfl⟩
  | some node =>
      cases node with
      | file content => exact .inl rfl
      | dir => exact .inl rfl

/-- The worker with a request for a download. -/
theorem handle_download (hx : x.reqType = .requestDownloadFile)
    (hparse : parseRequest frame = .ok (x.reqType.toInt, x.filename)) :
    x.handle (.data frame) = match sendFile x.serverTree x.filename with
      | none => .closed none
      | some packets => .sending (sendFileLoop packets) := by
  rw [SessionSetup.handle]
  simp only [hparse, hx]
  exact if_pos trivial

theorem downloading_step (hx : x.reqType = .requestDownloadFile)
    (hframe : requestFrame x.reqType x.filename = some frame) (hf : '\n' ∉ x.filename)
    (hcontent : content = (x.serverTree.readFile (sharedPath x.filename)).getD [])
    (h : Downloading content frame s n) (hstep : (reliableSession x).step s l s') :
    ∃ n', Downloading content frame s' n' ∧ n' < n := by
  obtain ⟨hparse, hlen⟩ := parseRequest_frame hf hframe
  have hafter : x.afterRequest = .receiving := by rw [SessionSetup.afterRequest, hx]
  cases h with
  | request =>
      rw [started_cases hframe hlen hstep, hafter]
      exact ⟨_, .requested, Nat.lt_succ_self _⟩
  | requested =>
      obtain ⟨hok, hstep⟩ := hstep
      change sessionStep x _ l = some s' at hstep
      cases l with
      | handle result =>
          rw [handle_cases hok rfl hlen hstep, handle_download hx hparse]
          rcases sendFile_cases x.serverTree x.filename with hopen | ⟨hopen, hread⟩
          · rw [hopen, ← hcontent]
            exact ⟨_, .sending _ (whole_start content) received_start, Nat.lt_succ_self _⟩
          · rw [hopen]
            rw [hread] at hcontent
            refine ⟨_, .missing hcontent, ?_⟩
            rw [hcontent]
            decide
      | clientRecv result =>
          obtain ⟨⟨-, hmay⟩, -⟩ := Option.ite_none_right_eq_some.mp hstep
          exact absurd hmay (not_mayReturn hok)
      | request | notify | awaitStart | clientSend | serverSend | serverRecv =>
          simp [sessionStep] at hstep
  | sending tr hw hr =>
      obtain ⟨hok, hstep⟩ := hstep
      change sessionStep x _ l = some s' at hstep
      cases l with
      | serverSend l =>
          simp only [sessionStep, Option.map_eq_some_iff] at hstep
          obtain ⟨y, hy, rfl⟩ := hstep
          obtain ⟨hw', hr', hlt, hway⟩ := transfer_sender hw hr hok hy rfl
          rw [← hway]
          exact ⟨_, .sending _ hw' hr', hlt⟩
      | clientRecv result =>
          obtain ⟨⟨hclient, hmay⟩, hnext⟩ := Option.ite_none_right_eq_some.mp hstep
          have hreceiving : tr.receiving = true := by
            by_contra hended
            have hclosed : ClientPoint.closed = .receiving := (if_neg hended).symm.trans hclient
            cases hclosed
          obtain ⟨hr', hlt, hway⟩ := transfer_recv hw hr hreceiving hok hmay rfl
          refine ⟨_, ?_, hlt⟩
          have hpoint : (if result.isLast then ClientPoint.closed else .receiving) =
              if !result.isLast then .receiving else .closed := by
            cases result.isLast <;> rfl
          rw [← Option.some.inj hnext]
          show Downloading content frame ⟨if result.isLast then _ else _, _, _, _, _⟩ _
          rw [hpoint, ← hway]
          exact .sending ⟨tr.sender, _, _, !result.isLast⟩ hw hr'
      | request | handle | notify | awaitStart | clientSend | serverRecv =>
          rcases hreceiving : tr.receiving <;> simp [sessionStep, hreceiving] at hstep
  | missing hnone =>
      obtain ⟨hok, hstep⟩ := hstep
      change sessionStep x _ l = some s' at hstep
      cases l with
      | clientRecv result =>
          obtain ⟨⟨-, hmay⟩, hnext⟩ := Option.ite_none_right_eq_some.mp hstep
          obtain rfl := eq_nil_of_mayReturn hok hmay
          rw [← Option.some.inj hnext]
          exact ⟨_, .missed hnone, Nat.zero_lt_one⟩
      | request | handle | notify | awaitStart | clientSend | serverSend | serverRecv =>
          simp [sessionStep] at hstep
  | missed hnone =>
      obtain ⟨-, hstep⟩ := hstep
      change sessionStep x _ l = some s' at hstep
      cases l <;> simp [sessionStep] at hstep

/-- Until the download is complete a call can be made. -/
theorem downloading_goes (hframe : requestFrame x.reqType x.filename = some frame)
    (hf : '\n' ∉ x.filename)
    (h : Downloading content frame s n) (hnot : ¬s.Complete content) :
    ∃ l s', (reliableSession x).step s l s' := by
  obtain ⟨-, hlen⟩ := parseRequest_frame hf hframe
  cases h with
  | request => exact ⟨.request msgBufSize, _, rfl, sessionStep_request hframe hlen⟩
  | requested => exact ⟨.handle (.data frame), _, hlen, sessionStep_handle rfl rfl hlen⟩
  | sending tr hw hr =>
      rcases hreceiving : tr.receiving with _ | _
      · -- the receiver has ended
        obtain ⟨hdone, -, hbytes⟩ := complete_of_ended hw hr hreceiving
        refine absurd ⟨?_, ?_, hbytes⟩ hnot
        · show ClientPoint.shut (if tr.receiving then _ else _) = true
          rw [hreceiving]
          rfl
        · exact decide_eq_true hdone
      · have hnot' : ¬P2PFileSharing.Complete content tr := fun h =>
          absurd (h.receiver.symm.trans hreceiving) nofun
        rcases transfer_goes_on hw hr hnot' with ⟨l, y, hok, hy⟩ | ⟨bytes, -, hmay⟩
        · exact ⟨.serverSend l, _, hok, sessionStep_serverSend rfl hy⟩
        · exact ⟨.clientRecv (.data bytes), _, nofun, sessionStep_clientRecv rfl hmay⟩
  | missing hnone =>
      have hend : MayReturn [] true fileTransferPacketSize (.data []) := by decide
      exact ⟨.clientRecv (.data []), _, nofun, sessionStep_clientRecv rfl hend⟩
  | missed hnone => exact absurd ⟨rfl, rfl, hnone.symm⟩ hnot

/-- A download whose calls do not fail comes to its end, and what was received then is the file
of the server, or nothing if it has none. -/
theorem download (hx : x.reqType = .requestDownloadFile)
    (hframe : requestFrame x.reqType x.filename = some frame) (hf : '\n' ∉ x.filename) :
    (reliableSession x).Inevitable
      (fun s =>
        s.Complete ((x.serverTree.readFile (sharedPath x.filename)).getD []) ∧
          ∀ t me obtainNum p held,
            (ensureDir t (receiveDir me)).appendable (obtainPath me obtainNum x.filename) =
              some (p, held) →
            (handleObtainResponse t me obtainNum x.filename s.received).tree.readFile
              (obtainPath me obtainNum x.filename) =
                some (held ++ (x.serverTree.readFile (sharedPath x.filename)).getD []))
      startSession := by
  have hcomplete := System.inevitable_of_rank (T := reliableSession x)
    (P := Session.Complete ((x.serverTree.readFile (sharedPath x.filename)).getD []))
    (R := Downloading _ frame) wellFounded_lt
    (fun s n h hnot => downloading_goes hframe hf h hnot)
    (fun s n l s' h _ hl => downloading_step hx hframe hf rfl h hl) _ _ .request
  refine hcomplete.imp ?_
  intro s h
  refine ⟨h, ?_⟩
  intro t me obtainNum p held hopen
  exact readFile_handleObtainResponse.mpr ⟨p, held, hopen, by rw [h.bytes]⟩

/-- A directory with one shared file. -/
def servedDirectory : FileTree :=
  newDirectory.setNode ["shared_files".toList, ['a']] (.file "hi".toList)

/-- One peer downloads that file. -/
def servedSetup : SessionSetup := ⟨.requestDownloadFile, ['a'], servedDirectory, none⟩

theorem download_served :
    (reliableSession servedSetup).Inevitable (Session.Complete "hi".toList) startSession := by
  have hread : (servedDirectory.readFile (sharedPath ['a'])).getD [] = "hi".toList := by decide
  refine (download (x := servedSetup) rfl (requestFrame_of_fits (by decide)) (by decide)).imp ?_
  intro s h
  rw [← hread]
  exact h.1

end Download

/-! ## Pushes -/

/-- The states of a push whose calls do not fail, and how many calls are left at most. Of the
notice the client may leave something unread. -/
inductive Pushing (content frame f : Str) : Session → Nat → Prop
  | request : Pushing content frame f startSession
      ((startTransfer (handlePushResponseLoop (freads content))).callsLeft + 4)
  | requested : Pushing content frame f ⟨.awaitStart, .request, frame, [], []⟩
      ((startTransfer (handlePushResponseLoop (freads content))).callsLeft + 3)
  | notifying : Pushing content frame f ⟨.awaitStart, .notify f, [], [], []⟩
      ((startTransfer (handlePushResponseLoop (freads content))).callsLeft + 2)
  | notified (notice : Str) (hne : notice ≠ []) (hshort : notice.length ≤ 2) :
      Pushing content frame f ⟨.awaitStart, .receiving f, [], notice, []⟩
        ((startTransfer (handlePushResponseLoop (freads content))).callsLeft + 1)
  | sending (tr : Transfer) (unread : Str) (hw : Whole content tr.sender) (hr : Received tr) :
      Pushing content frame f
        ⟨.sending tr.sender, if tr.receiving then .receiving f else .closed (some f), tr.underWay,
          unread, tr.received⟩ tr.callsLeft

section Push

variable {x : SessionSetup} {content frame : Str} {s s' : Session} {l : SessionLabel} {n : Nat}

/-- The worker with a request for a push. -/
theorem handle_push (hx : x.reqType = .requestPushFile)
    (hparse : parseRequest frame = .ok (x.reqType.toInt, x.filename)) :
    x.handle (.data frame) = .notify x.filename := by
  rw [SessionSetup.handle]
  simp only [hparse, hx]
  rfl

/-- The notice is not empty. -/
theorem notify_cases {f : Str} {sent : Int} (hserver : s.server = .notify f) (hpos : 0 < sent)
    (h : sessionStep x s (.notify sent) = some s') :
    ∃ notice : Str, notice ≠ [] ∧ notice.length ≤ 2 ∧
      s' = { s with server := .receiving f, toClient := s.toClient ++ notice } := by
  simp only [sessionStep, hserver] at h
  obtain ⟨hroom, hnext⟩ := Option.ite_none_right_eq_some.mp h
  refine ⟨"start".toList.take sent.toNat, ?_, ?_, (Option.some.inj hnext).symm⟩
  · intro hnil
    have hlen := congrArg List.length hnil
    rw [List.length_take] at hlen
    have hfive : "start".toList.length = 5 := rfl
    rw [hfive, List.length_nil] at hlen
    omega
  · exact Nat.le_trans (List.length_take_le _ _) hroom

theorem pushing_step (hx : x.reqType = .requestPushFile)
    (hfile : x.clientFile = some (freads content))
    (hframe : requestFrame x.reqType x.filename = some frame) (hf : '\n' ∉ x.filename)
    (h : Pushing content frame x.filename s n) (hstep : (reliableSession x).step s l s') :
    ∃ n', Pushing content frame x.filename s' n' ∧ n' < n := by
  obtain ⟨hparse, hlen⟩ := parseRequest_frame hf hframe
  have hafter : x.afterRequest = .awaitStart := by
    rw [SessionSetup.afterRequest, hx, hfile]
    rfl
  cases h with
  | request =>
      rw [started_cases hframe hlen hstep, hafter]
      exact ⟨_, .requested, Nat.lt_succ_self _⟩
  | requested =>
      obtain ⟨hok, hstep⟩ := hstep
      change sessionStep x _ l = some s' at hstep
      cases l with
      | handle result =>
          rw [handle_cases hok rfl hlen hstep, handle_push hx hparse]
          exact ⟨_, .notifying, Nat.lt_succ_self _⟩
      | awaitStart result =>
          obtain ⟨⟨-, hmay⟩, -⟩ := Option.ite_none_right_eq_some.mp hstep
          exact absurd hmay (not_mayReturn hok)
      | request | notify | clientSend | serverSend | clientRecv | serverRecv =>
          simp [sessionStep] at hstep
  | notifying =>
      obtain ⟨hok, hstep⟩ := hstep
      change sessionStep x _ l = some s' at hstep
      cases l with
      | notify sent =>
          obtain ⟨notice, hne, hshort, rfl⟩ := notify_cases rfl hok hstep
          exact ⟨_, .notified notice hne hshort, Nat.lt_succ_self _⟩
      | awaitStart result =>
          obtain ⟨⟨-, hmay⟩, -⟩ := Option.ite_none_right_eq_some.mp hstep
          exact absurd hmay (not_mayReturn hok)
      | request | handle | clientSend | serverSend | clientRecv | serverRecv =>
          simp [sessionStep] at hstep
  | notified notice hne hshort =>
      obtain ⟨hok, hstep⟩ := hstep
      change sessionStep x _ l = some s' at hstep
      cases l with
      | awaitStart result =>
          obtain ⟨-, hnext⟩ := Option.ite_none_right_eq_some.mp hstep
          rw [← Option.some.inj hnext, hfile]
          exact ⟨_, .sending _ _ (whole_start content) received_start, Nat.lt_succ_self _⟩
      | serverRecv result =>
          simp only [sessionStep] at hstep
          obtain ⟨hmay, -⟩ := Option.ite_none_right_eq_some.mp hstep
          exact absurd hmay (not_mayReturn hok)
      | request | handle | notify | clientSend | serverSend | clientRecv =>
          simp [sessionStep] at hstep
  | sending tr unread hw hr =>
      obtain ⟨hok, hstep⟩ := hstep
      change sessionStep x _ l = some s' at hstep
      cases l with
      | clientSend l =>
          simp only [sessionStep, Option.map_eq_some_iff] at hstep
          obtain ⟨y, hy, rfl⟩ := hstep
          obtain ⟨hw', hr', hlt, hway⟩ := transfer_sender hw hr hok hy rfl
          rw [← hway]
          exact ⟨_, .sending _ unread hw' hr', hlt⟩
      | serverRecv result =>
          rcases hreceiving : tr.receiving with _ | _
          · rw [hreceiving] at hstep
            cases hstep
          · rw [hreceiving] at hstep
            obtain ⟨hmay, hnext⟩ := Option.ite_none_right_eq_some.mp hstep
            obtain ⟨hr', hlt, hway⟩ := transfer_recv hw hr hreceiving hok hmay rfl
            refine ⟨_, ?_, hlt⟩
            have hpoint : (if result.isLast then ServerPoint.closed (some x.filename)
                else .receiving x.filename) =
                if !result.isLast then .receiving x.filename else .closed (some x.filename) := by
              cases result.isLast <;> rfl
            rw [← Option.some.inj hnext]
            show Pushing content frame x.filename ⟨_, if result.isLast then _ else _, _, _, _⟩ _
            rw [hpoint, ← hway]
            exact .sending ⟨tr.sender, _, _, !result.isLast⟩ unread hw hr'
      | request | handle | notify | awaitStart | serverSend | clientRecv =>
          rcases hreceiving : tr.receiving <;> simp [sessionStep, hreceiving] at hstep

/-- Until the push is complete a call can be made. -/
theorem pushing_goes (hframe : requestFrame x.reqType x.filename = some frame)
    (hf : '\n' ∉ x.filename) (h : Pushing content frame x.filename s n)
    (hnot : ¬s.Complete content) : ∃ l s', (reliableSession x).step s l s' := by
  obtain ⟨-, hlen⟩ := parseRequest_frame hf hframe
  cases h with
  | request => exact ⟨.request msgBufSize, _, rfl, sessionStep_request hframe hlen⟩
  | requested => exact ⟨.handle (.data frame), _, hlen, sessionStep_handle rfl rfl hlen⟩
  | notifying =>
      have hpos : (0 : Int) < 2 := by decide
      have hstep : sessionStep x ⟨.awaitStart, .notify x.filename, [], [], []⟩ (.notify 2) =
          some ⟨.awaitStart, .receiving x.filename, [], ['s', 't'], []⟩ := rfl
      exact ⟨.notify 2, _, hpos, hstep⟩
  | notified notice hne hshort =>
      have hmay : MayReturn notice false msgBufSize (.data notice) :=
        ⟨List.prefix_refl _, Nat.le_trans hshort (by decide), fun hnil => absurd hnil hne⟩
      have hok : RecvResult.data notice ≠ .failed := nofun
      exact ⟨.awaitStart (.data notice), _, hok, if_pos ⟨rfl, hmay⟩⟩
  | sending tr unread hw hr =>
      rcases hreceiving : tr.receiving with _ | _
      · -- the receiver has ended
        obtain ⟨hdone, -, hbytes⟩ := complete_of_ended hw hr hreceiving
        refine absurd ⟨decide_eq_true hdone, ?_, hbytes⟩ hnot
        show ServerPoint.shut (if tr.receiving then _ else _) = true
        rw [hreceiving]
        rfl
      · have hnot' : ¬P2PFileSharing.Complete content tr := fun h =>
          absurd (h.receiver.symm.trans hreceiving) nofun
        rcases transfer_goes_on hw hr hnot' with ⟨l, y, hok, hy⟩ | ⟨bytes, -, hmay⟩
        · exact ⟨.clientSend l, _, hok, sessionStep_clientSend rfl hy⟩
        · exact ⟨.serverRecv (.data bytes), _, nofun, sessionStep_serverRecv rfl hmay⟩

/-- The worker has opened the file that was asked for. -/
theorem opened_of_pushing (h : Pushing content frame x.filename s n) (hend : s.Complete content) :
    s.server.opened = some x.filename := by
  cases h with
  | sending tr unread hw hr => cases tr.receiving <;> rfl
  | request => cases hend.server
  | requested => cases hend.server
  | notifying => cases hend.server
  | notified => cases hend.server

/-- A push whose calls do not fail comes to its end, the file that the worker has opened then is
the one that the client named, and it is the file of the client. -/
theorem push (hx : x.reqType = .requestPushFile) (hfile : x.clientFile = some (freads content))
    (hframe : requestFrame x.reqType x.filename = some frame) (hf : '\n' ∉ x.filename) :
    (reliableSession x).Inevitable
      (fun s =>
        s.Complete content ∧ s.server.opened = some x.filename ∧
          ∀ t me f, s.server.opened = some f →
            ((ensureDir t (receiveDir me)).openTrunc (receivePath me f)).isSome →
            (receiveFile t me f s.received).readFile (receivePath me f) = some content)
      startSession := by
  have hcomplete := System.inevitable_of_rank (T := reliableSession x)
    (P := fun s => s.Complete content ∧ s.server.opened = some x.filename)
    (R := Pushing content frame x.filename) wellFounded_lt
    (fun s n h hnot =>
      pushing_goes hframe hf h fun hend => hnot ⟨hend, opened_of_pushing h hend⟩)
    (fun s n l s' h _ hl => pushing_step hx hfile hframe hf h hl) _ _ .request
  refine hcomplete.imp ?_
  intro s h
  obtain ⟨hend, hopened⟩ := h
  refine ⟨hend, hopened, ?_⟩
  intro t me f _ hopen
  rw [readFile_receiveFile hopen, hend.bytes]

/-- One peer pushes a file to another. -/
def pushedSetup (clientFile : Option (List Str)) : SessionSetup :=
  ⟨.requestPushFile, ['a'], newDirectory, clientFile⟩

theorem push_pushed :
    (reliableSession (pushedSetup (some (freads "hi".toList)))).Inevitable
      (fun s => (receiveFile newDirectory 1 ['a'] s.received).readFile (receivePath 1 ['a']) =
        some "hi".toList) startSession := by
  refine (push (x := pushedSetup (some (freads "hi".toList))) rfl rfl
    (requestFrame_of_fits (by decide)) (by decide)).imp ?_
  intro s h
  exact h.2.2 newDirectory 1 ['a'] h.2.1 (by decide)

/-- The states of a push whose file the client cannot open, and how many calls are left. -/
inductive Left (frame f : Str) : Session → Nat → Prop
  | request : Left frame f startSession 3
  | requested : Left frame f ⟨.left, .request, frame, [], []⟩ 2
  | notifying : Left frame f ⟨.left, .notify f, [], [], []⟩ 1
  | notified (notice : Str) : Left frame f ⟨.left, .receiving f, [], notice, []⟩ 0

/-- The worker is in its loop over `recv`, nothing was received, and no call returns. -/
structure Session.Waits (x : SessionSetup) (s : Session) : Prop where
  client : s.client = .left
  server : s.server = .receiving x.filename
  received : s.received = []
  stuck : ∀ l s', ¬(reliableSession x).step s l s'

theorem left_waits {notice : Str} :
    Session.Waits x ⟨.left, .receiving x.filename, [], notice, []⟩ where
  client := rfl
  server := rfl
  received := rfl
  stuck := by
    intro l s' hstep
    obtain ⟨hok, hstep⟩ := hstep
    change sessionStep x _ l = some s' at hstep
    cases l with
    | serverRecv result =>
        simp only [sessionStep] at hstep
        obtain ⟨hmay, -⟩ := Option.ite_none_right_eq_some.mp hstep
        exact not_mayReturn hok hmay
    | request | handle | notify | awaitStart | clientSend | serverSend | clientRecv =>
        simp [sessionStep] at hstep

theorem left_step (hx : x.reqType = .requestPushFile) (hfile : x.clientFile = none)
    (hframe : requestFrame x.reqType x.filename = some frame) (hf : '\n' ∉ x.filename)
    (h : Left frame x.filename s n) (hstep : (reliableSession x).step s l s') :
    ∃ n', Left frame x.filename s' n' ∧ n' < n := by
  obtain ⟨hparse, hlen⟩ := parseRequest_frame hf hframe
  have hafter : x.afterRequest = .left := by
    rw [SessionSetup.afterRequest, hx, hfile]
    rfl
  cases h with
  | request =>
      rw [started_cases hframe hlen hstep, hafter]
      exact ⟨_, .requested, Nat.lt_succ_self _⟩
  | requested =>
      obtain ⟨hok, hstep⟩ := hstep
      change sessionStep x _ l = some s' at hstep
      cases l with
      | handle result =>
          rw [handle_cases hok rfl hlen hstep, handle_push hx hparse]
          exact ⟨_, .notifying, Nat.lt_succ_self _⟩
      | request | notify | awaitStart | clientSend | serverSend | clientRecv | serverRecv =>
          simp [sessionStep] at hstep
  | notifying =>
      obtain ⟨hok, hstep⟩ := hstep
      change sessionStep x _ l = some s' at hstep
      cases l with
      | notify sent =>
          obtain ⟨notice, -, -, rfl⟩ := notify_cases rfl hok hstep
          exact ⟨_, .notified notice, Nat.lt_succ_self _⟩
      | request | handle | awaitStart | clientSend | serverSend | clientRecv | serverRecv =>
          simp [sessionStep] at hstep
  | notified notice => exact absurd hstep (left_waits.stuck l s')

theorem left_goes (hframe : requestFrame x.reqType x.filename = some frame)
    (hf : '\n' ∉ x.filename) (h : Left frame x.filename s n) (hnot : ¬s.Waits x) :
    ∃ l s', (reliableSession x).step s l s' := by
  obtain ⟨-, hlen⟩ := parseRequest_frame hf hframe
  cases h with
  | request => exact ⟨.request msgBufSize, _, rfl, sessionStep_request hframe hlen⟩
  | requested => exact ⟨.handle (.data frame), _, hlen, sessionStep_handle rfl rfl hlen⟩
  | notifying =>
      have hpos : (0 : Int) < 2 := by decide
      have hstep : sessionStep x ⟨.left, .notify x.filename, [], [], []⟩ (.notify 2) =
          some ⟨.left, .receiving x.filename, [], ['s', 't'], []⟩ := rfl
      exact ⟨.notify 2, _, hpos, hstep⟩
  | notified notice => exact absurd left_waits hnot

/-- A push of a file that the client cannot open empties the file of the server, and its worker
waits for good. -/
theorem push_left (hx : x.reqType = .requestPushFile) (hfile : x.clientFile = none)
    (hframe : requestFrame x.reqType x.filename = some frame) (hf : '\n' ∉ x.filename) :
    (reliableSession x).Inevitable
      (fun s =>
        s.Waits x ∧
          ∀ t me, ((ensureDir t (receiveDir me)).openTrunc (receivePath me x.filename)).isSome →
            (receiveFile t me x.filename s.received).readFile (receivePath me x.filename) =
              some [])
      startSession := by
  have hwaits := System.inevitable_of_rank (T := reliableSession x)
    (P := Session.Waits x) (R := Left frame x.filename) wellFounded_lt
    (fun s n h hnot => left_goes hframe hf h hnot)
    (fun s n l s' h _ hl => left_step hx hfile hframe hf h hl) _ _ .request
  refine hwaits.imp ?_
  intro s h
  refine ⟨h, ?_⟩
  intro t me hopen
  rw [readFile_receiveFile hopen, h.received]
  rfl

theorem push_left_pushed :
    (reliableSession (pushedSetup none)).Inevitable
      (fun s => s.Waits (pushedSetup none) ∧
        (receiveFile newDirectory 1 ['a'] s.received).readFile (receivePath 1 ['a']) = some [])
      startSession := by
  refine (push_left (x := pushedSetup none) rfl rfl (requestFrame_of_fits (by decide))
    (by decide)).imp ?_
  intro s h
  exact ⟨h.1, h.2 newDirectory 1 (by decide)⟩

end Push

end P2PFileSharing
