import P2PFileSharing.Model.TcpServer
import P2PFileSharing.Proofs.FileTransfer

/-!
# What the receive loop hands on, and when it ends

As long as `recv` does not fail, the buffers passed to `DealWithRequest` are the complete
frames of what was received. A failure ends the inner loop like a full buffer does, and what
had arrived of a frame is passed on as one. When the other side closes, `recv` returns 0 for
ever and the inner loop goes on for ever: the thread returns only if `keep_running` was
cleared by one of the frames before.
-/

namespace P2PFileSharing

variable {bufferSize : Nat} {keepRunning : List Str → Bool} {s s' : RequestLoop}
  {result : RecvResult} {results : List RecvResult}

/-- The bytes received. -/
def bytesReceived (results : List RecvResult) : Str := results.flatMap RecvResult.bytes

theorem bytesReceived_append (result : RecvResult) :
    bytesReceived (results ++ [result]) = bytesReceived results ++ result.bytes := by
  rw [bytesReceived, List.flatMap_append, List.flatMap_singleton]
  rfl

/-- What a call of `recv` leads to. -/
theorem requestStep_cases (h : requestStep bufferSize keepRunning s result = some s') :
    s.returned = false ∧
      ((result = .failed ∧ s' =
          { s with
            errorRecv := true
            results := s.results ++ [RecvResult.failed] }.dispatch bufferSize keepRunning) ∨
        ∃ bytes, result = .data bytes ∧ bytes.length ≤ bufferSize - s.buffer.length ∧
          ((s.buffer.length + bytes.length < bufferSize ∧ s' =
              { s with
                buffer := s.buffer ++ bytes
                results := s.results ++ [RecvResult.data bytes] }) ∨
            (bufferSize ≤ s.buffer.length + bytes.length ∧ s' =
              { s with
                buffer := s.buffer ++ bytes
                results := s.results ++ [RecvResult.data bytes] }.dispatch bufferSize
                  keepRunning))) := by
  rw [requestStep.eq_def] at h
  split at h
  · cases h
  · next hreturned =>
      refine ⟨Bool.eq_false_of_not_eq_true hreturned, ?_⟩
      cases result with
      | failed => exact .inl ⟨rfl, (Option.some.inj h).symm⟩
      | data bytes =>
          right
          dsimp only at h
          split at h
          · next hroom =>
              rw [List.length_append] at h
              refine ⟨bytes, rfl, hroom, ?_⟩
              split at h
              · next hlt => exact .inl ⟨hlt, (Option.some.inj h).symm⟩
              · next hge => exact .inr ⟨by omega, (Option.some.inj h).symm⟩
          · cases h

theorem results_data {bytes : Str}
    (h : requestStep bufferSize keepRunning s (.data bytes) = some s') :
    s'.results = s.results ++ [.data bytes] := by
  obtain ⟨-, ⟨hfailed, -⟩ | ⟨bytes', heq, -, hcase⟩⟩ := requestStep_cases h
  · cases hfailed
  · cases heq
    rcases hcase with ⟨-, rfl⟩ | ⟨-, rfl⟩
    · rfl
    · rfl

/-- Whatever fits the buffer can be received. -/
theorem requestStep_data {bytes : Str} (keepRunning : List Str → Bool) (hgoing : s.returned = false)
    (hroom : bytes.length ≤ bufferSize - s.buffer.length) :
    (requestStep bufferSize keepRunning s (.data bytes)).isSome := by
  rw [requestStep.eq_def, if_neg (by rw [hgoing]; decide)]
  dsimp only
  rw [if_pos hroom]
  rfl

/-! ## Runs without a failure -/

/-- The buffers dealt with are full, and the rest of the bytes is in the buffer. -/
structure Framed (bufferSize : Nat) (keepRunning : List Str → Bool) (s : RequestLoop) : Prop where
  bytes : s.dispatched.flatten ++ s.buffer = bytesReceived s.results
  frames : ∀ frame ∈ s.dispatched, frame.length = bufferSize
  buffer : s.buffer.length < bufferSize
  error : s.errorRecv = false
  kept : s.returned = false → ∀ k < s.dispatched.length,
    keepRunning (s.dispatched.take (k + 1)) = true
  cleared : s.returned = true → ∃ k < s.dispatched.length,
    keepRunning (s.dispatched.take (k + 1)) = false

theorem framed_start (hsize : 0 < bufferSize) :
    Framed bufferSize keepRunning startRequestLoop where
  bytes := rfl
  frames := nofun
  buffer := hsize
  error := rfl
  kept _ k hk := absurd hk (Nat.not_lt_zero k)
  cleared := nofun

theorem Framed.dispatched (h : Framed bufferSize keepRunning s) :
    s.dispatched = wholeFrames bufferSize (bytesReceived s.results) := by
  rw [← h.bytes, wholeFrames_eq h.frames h.buffer]

/-- A buffer that is full is dealt with as it is. -/
theorem framed_dispatch {buffer : Str} (hlen : buffer.length = bufferSize)
    (hsize : 0 < bufferSize) (hbytes : s.dispatched.flatten ++ buffer = bytesReceived results)
    (hframes : ∀ frame ∈ s.dispatched, frame.length = bufferSize) (herror : s.errorRecv = false)
    (hkept : ∀ k < s.dispatched.length, keepRunning (s.dispatched.take (k + 1)) = true) :
    Framed bufferSize keepRunning
      ({ s with buffer := buffer, results := results }.dispatch bufferSize keepRunning) := by
  have hpad : pad bufferSize '\x00' buffer = buffer := by
    rw [pad, hlen, Nat.sub_self, List.replicate_zero, List.append_nil]
  constructor
  · show (s.dispatched ++ [pad bufferSize '\x00' buffer]).flatten ++ [] = bytesReceived results
    rw [hpad, List.append_nil, List.flatten_append, List.flatten_singleton, hbytes]
  · intro frame hframe
    rcases List.mem_append.mp hframe with hframe | hframe
    · exact hframes frame hframe
    · rw [List.mem_singleton.mp hframe]
      show (pad bufferSize '\x00' buffer).length = bufferSize
      rw [hpad, hlen]
  · exact hsize
  · exact herror
  · intro hreturned k hk
    have hlast : keepRunning (s.dispatched ++ [pad bufferSize '\x00' buffer]) = true := by
      cases hkeep : keepRunning (s.dispatched ++ [pad bufferSize '\x00' buffer]) with
      | true => rfl
      | false =>
          change (!keepRunning _ || s.errorRecv) = false at hreturned
          rw [hkeep] at hreturned
          cases hreturned
    show keepRunning ((s.dispatched ++ [pad bufferSize '\x00' buffer]).take (k + 1)) = true
    change k < (s.dispatched ++ [pad bufferSize '\x00' buffer]).length at hk
    rw [List.length_append, List.length_singleton] at hk
    by_cases hlt : k < s.dispatched.length
    · rw [List.take_append_of_le_length hlt]
      exact hkept k hlt
    · rw [List.take_of_length_le]
      · exact hlast
      · rw [List.length_append, List.length_singleton]
        omega
  · intro hreturned
    change (!keepRunning _ || s.errorRecv) = true at hreturned
    rw [herror, Bool.or_false, Bool.not_eq_true'] at hreturned
    refine ⟨s.dispatched.length, ?_, ?_⟩
    · show s.dispatched.length < (s.dispatched ++ [pad bufferSize '\x00' buffer]).length
      rw [List.length_append, List.length_singleton]
      omega
    · show keepRunning ((s.dispatched ++ [pad bufferSize '\x00' buffer]).take _) = false
      rw [List.take_of_length_le]
      · exact hreturned
      · rw [List.length_append, List.length_singleton]

theorem framed_data {bytes : Str} (h : Framed bufferSize keepRunning s)
    (hstep : requestStep bufferSize keepRunning s (.data bytes) = some s') :
    Framed bufferSize keepRunning s' := by
  obtain ⟨hgoing, ⟨hfailed, -⟩ | ⟨bytes', heq, hroom, hcase⟩⟩ := requestStep_cases hstep
  · cases hfailed
  · cases heq
    have hbytes : s.dispatched.flatten ++ (s.buffer ++ bytes) =
        bytesReceived (s.results ++ [.data bytes]) := by
      rw [bytesReceived_append, ← h.bytes, List.append_assoc]
      rfl
    have hbuffer := h.buffer
    rcases hcase with ⟨hlt, rfl⟩ | ⟨hge, rfl⟩
    · refine ⟨hbytes, h.frames, ?_, h.error, h.kept, h.cleared⟩
      show (s.buffer ++ bytes).length < bufferSize
      rw [List.length_append]
      exact hlt
    · refine framed_dispatch ?_ (by omega) hbytes h.frames h.error (h.kept hgoing)
      rw [List.length_append]
      omega

/-! ## Whole frames -/

/-- After a failure the last buffer dealt with was not full. -/
structure CutShort (bufferSize : Nat) (s : RequestLoop) : Prop where
  returned : s.returned = true
  last : ∃ frames rest, s.dispatched = frames ++ [pad bufferSize '\x00' rest] ∧
    (∀ frame ∈ frames, frame.length = bufferSize) ∧ rest.length < bufferSize ∧
    frames.flatten ++ rest = bytesReceived s.results

theorem cutShort_failed (h : Framed bufferSize keepRunning s)
    (hstep : requestStep bufferSize keepRunning s .failed = some s') :
    CutShort bufferSize s' ∧ RecvResult.failed ∈ s'.results := by
  obtain ⟨-, ⟨-, rfl⟩ | ⟨bytes', heq, -⟩⟩ := requestStep_cases hstep
  · refine ⟨⟨Bool.or_true _, s.dispatched, s.buffer, rfl, h.frames, h.buffer, ?_⟩, ?_⟩
    · show s.dispatched.flatten ++ s.buffer = bytesReceived (s.results ++ [.failed])
      rw [bytesReceived_append, h.bytes]
      exact (List.append_nil _).symm
    · exact List.mem_append_right _ List.mem_cons_self
  · cases heq

theorem framed_or_cutShort (hsize : 0 < bufferSize)
    (hs : (handleRequest bufferSize keepRunning).Reachable s) :
    (Framed bufferSize keepRunning s ∧ RecvResult.failed ∉ s.results) ∨
      (CutShort bufferSize s ∧ RecvResult.failed ∈ s.results) := by
  refine hs.invariant (I := fun s => (Framed bufferSize keepRunning s ∧
    RecvResult.failed ∉ s.results) ∨ (CutShort bufferSize s ∧ RecvResult.failed ∈ s.results)) ?_ ?_
  · intro s hs
    obtain rfl := hs
    exact .inl ⟨framed_start hsize, List.not_mem_nil⟩
  · intro s result s' _ h hstep
    change requestStep bufferSize keepRunning s result = some s' at hstep
    have hgoing := (requestStep_cases hstep).1
    rcases h with ⟨hframed, hno⟩ | ⟨hcut, -⟩
    · cases result with
      | failed => exact .inr (cutShort_failed hframed hstep)
      | data bytes =>
          refine .inl ⟨framed_data hframed hstep, ?_⟩
          rw [results_data hstep, List.mem_append, List.mem_singleton]
          intro h
          rcases h with h | h
          · exact hno h
          · cases h
    · rw [hcut.returned] at hgoing
      cases hgoing

/-- The buffers dealt with are the complete frames received if and only if no `recv` failed. -/
theorem dispatched_whole_iff (hsize : 0 < bufferSize)
    (hs : (handleRequest bufferSize keepRunning).Reachable s) :
    s.dispatched = wholeFrames bufferSize (bytesReceived s.results) ↔
      RecvResult.failed ∉ s.results := by
  rcases framed_or_cutShort hsize hs with ⟨hframed, hno⟩ | ⟨hcut, hfailed⟩
  · exact ⟨fun _ => hno, fun _ => hframed.dispatched⟩
  · constructor
    · intro h
      obtain ⟨frames, rest, hlast, hframes, hrest, hbytes⟩ := hcut.last
      rw [← hbytes, wholeFrames_eq hframes hrest] at h
      have hlen := congrArg List.length (hlast.symm.trans h)
      rw [List.length_append, List.length_singleton] at hlen
      omega
    · intro h
      exact absurd hfailed h

/-- Two bytes of a frame of two, and one of the next. -/
def threeBytes : RequestLoop :=
  ⟨['c'], false, false, [.data ['a'], .data ['b'], .data ['c']], [['a', 'b']]⟩

theorem dispatched_whole_iff_threeBytes :
    threeBytes.dispatched = wholeFrames 2 (bytesReceived threeBytes.results) ↔
      RecvResult.failed ∉ threeBytes.results := by
  have hs : (handleRequest 2 peerServerKeepRunning).Reachable threeBytes :=
    .step (.data ['c']) (.step (.data ['b']) (.step (.data ['a']) (.init rfl) rfl) rfl) rfl
  exact dispatched_whole_iff (by decide) hs

/-- What had arrived when `recv` failed is dealt with like a message. -/
theorem reachable_cut (keepRunning : List Str → Bool) {message : Str}
    (h : message.length < bufferSize) :
    ∃ s, (handleRequest bufferSize keepRunning).Reachable s ∧
      s.results = [.data message, .failed] ∧ s.dispatched = [pad bufferSize '\x00' message] := by
  have hroom : message.length ≤ bufferSize - startRequestLoop.buffer.length :=
    Nat.le_of_lt h
  have hdata : requestStep bufferSize keepRunning startRequestLoop (.data message) =
      some ⟨message, false, false, [.data message], []⟩ := by
    rw [requestStep.eq_def, if_neg (by decide)]
    dsimp only
    rw [if_pos hroom]
    exact congrArg some (if_pos h)
  exact ⟨_, .step .failed (.step (.data message) (.init rfl) hdata) rfl, rfl, rfl⟩

/-- A query that breaks off in its filename. -/
def cutQuery : Str := joinFields (commonFields peerMsgQuery ⟨1, 2, 3⟩ 1 ++ [['f']])

theorem cutQuery_dispatched : ∃ s, (handleRequest msgBufSize peerServerKeepRunning).Reachable s ∧
    s.dispatched ≠ wholeFrames msgBufSize (bytesReceived s.results) ∧
      peerServerMessages s.dispatched = [cutQuery] := by
  have hlen : cutQuery.length < msgBufSize := by decide
  have hnul : '\x00' ∉ cutQuery := by decide
  have hne : cutQuery ≠ [] := by decide
  obtain ⟨s, hs, hresults, hdispatched⟩ := reachable_cut peerServerKeepRunning hlen
  refine ⟨s, hs, ?_, ?_⟩
  · have hbytes : bytesReceived s.results = cutQuery := by
      rw [hresults]
      exact List.append_nil _
    rw [hbytes, wholeFrames_short hlen, hdispatched]
    exact List.cons_ne_nil _ _
  · rw [hdispatched, peerServerMessages, List.map_singleton, cString, unpad_pad hnul]
    exact List.filter_cons_of_pos (decide_eq_true hne)

/-! ## When the other side has closed -/

section Closing

variable {stream : Str} {c c' : ClosingConnection}

/-- `DealWithRequest` clears `keep_running` on one of the complete frames of a stream. -/
def Clears (bufferSize : Nat) (keepRunning : List Str → Bool) (stream : Str) : Prop :=
  ∃ k < (wholeFrames bufferSize stream).length,
    keepRunning ((wholeFrames bufferSize stream).take (k + 1)) = false

/-- What was received and what is to come make up the stream. -/
structure Streamed (bufferSize : Nat) (keepRunning : List Str → Bool) (stream : Str)
    (c : ClosingConnection) : Prop where
  framed : Framed bufferSize keepRunning c.loop
  bytes : bytesReceived c.loop.results ++ c.unread = stream

theorem streamed_step (h : Streamed bufferSize keepRunning stream c)
    (hstep : (closingConnection bufferSize keepRunning stream).step c result c') :
    Streamed bufferSize keepRunning stream c' := by
  obtain ⟨bytes, rfl, ⟨rest, hrest⟩, -, hloop, hunread⟩ := hstep
  refine ⟨framed_data h.framed hloop, ?_⟩
  have hresults : bytesReceived c'.loop.results = bytesReceived c.loop.results ++ bytes := by
    rw [results_data hloop, bytesReceived_append]
    rfl
  rw [hresults, hunread, ← h.bytes, ← hrest, List.drop_left, List.append_assoc]

/-- The frames dealt with are the first ones of the stream. -/
theorem Streamed.wholeFrames (h : Streamed bufferSize keepRunning stream c) :
    ∃ more, wholeFrames bufferSize stream = c.loop.dispatched ++ more := by
  have hbuffer := h.framed.buffer
  rw [← h.bytes, ← h.framed.bytes, List.append_assoc,
    wholeFrames_append (by omega) h.framed.frames]
  exact ⟨_, rfl⟩

/-- The loop does not return for what it was not told by one of the frames. -/
theorem Streamed.clears (h : Streamed bufferSize keepRunning stream c)
    (hreturned : c.loop.returned = true) : Clears bufferSize keepRunning stream := by
  obtain ⟨k, hk, hclear⟩ := h.framed.cleared hreturned
  obtain ⟨more, hmore⟩ := h.wholeFrames
  refine ⟨k, ?_, ?_⟩
  · rw [hmore, List.length_append]
    omega
  · rw [hmore, List.take_append_of_le_length (by omega)]
    exact hclear

/-- While it goes on although it is to be told so, there is more to come. -/
theorem Streamed.unread_ne_nil (h : Streamed bufferSize keepRunning stream c)
    (hgoing : c.loop.returned = false) (hclears : Clears bufferSize keepRunning stream) :
    c.unread ≠ [] := by
  intro hnil
  have hbytes := h.bytes
  rw [hnil, List.append_nil] at hbytes
  obtain ⟨k, hk, hclear⟩ := hclears
  rw [← hbytes, ← h.framed.dispatched] at hk hclear
  rw [h.framed.kept hgoing k hk] at hclear
  cases hclear

/-- There is always a byte to receive, or the 0 of a closed connection. -/
theorem Streamed.goes_on (h : Streamed bufferSize keepRunning stream c)
    (hgoing : c.loop.returned = false) :
    ∃ result c', (closingConnection bufferSize keepRunning stream).step c result c' := by
  have hbuffer := h.framed.buffer
  have hroom : (c.unread.take 1).length ≤ bufferSize - c.loop.buffer.length := by
    rw [List.length_take]
    omega
  obtain ⟨loop, hloop⟩ := Option.isSome_iff_exists.mp
    (requestStep_data keepRunning hgoing hroom)
  refine ⟨_, ⟨loop, _⟩, c.unread.take 1, rfl, List.take_prefix _ _, ?_, hloop, rfl⟩
  intro hnil
  rcases List.take_eq_nil_iff.mp hnil with hone | hunread
  · cases hone
  · exact hunread

theorem returns_of_clears (hsize : 0 < bufferSize) (h : Clears bufferSize keepRunning stream) :
    (closingConnection bufferSize keepRunning stream).Inevitable
      (fun c => c.loop.returned = true) ⟨startRequestLoop, stream⟩ := by
  refine System.inevitable_of_measure (I := Streamed bufferSize keepRunning stream)
    (fun c => c.unread.length) ?_ ?_ _ ⟨framed_start hsize, rfl⟩
  · intro c hc hgoing
    exact hc.goes_on (Bool.eq_false_of_not_eq_true hgoing)
  · intro c result c' hc hgoing hstep
    refine ⟨streamed_step hc hstep, ?_⟩
    have hne := hc.unread_ne_nil (Bool.eq_false_of_not_eq_true hgoing) h
    obtain ⟨bytes, -, -, hclosed, -, hunread⟩ := hstep
    have hbytes : 0 < bytes.length := List.length_pos_iff.mpr fun hnil => hne (hclosed hnil)
    have hleft : 0 < c.unread.length := List.length_pos_iff.mpr hne
    rw [hunread, List.length_drop]
    omega

theorem clears_of_returns (hsize : 0 < bufferSize)
    (h : (closingConnection bufferSize keepRunning stream).Inevitable
      (fun c => c.loop.returned = true) ⟨startRequestLoop, stream⟩) :
    Clears bufferSize keepRunning stream := by
  by_contra hno
  refine System.not_inevitable_of_avoids (J := Streamed bufferSize keepRunning stream) ?_ h
    ⟨framed_start hsize, rfl⟩
  intro c hc
  have hgoing : ¬c.loop.returned = true := fun hreturned => hno (hc.clears hreturned)
  obtain ⟨result, c', hstep⟩ := hc.goes_on (Bool.eq_false_of_not_eq_true hgoing)
  exact ⟨hgoing, result, c', hstep, streamed_step hc hstep⟩

/-- The thread returns when the stream is at its end if and only if one of the frames has made
`DealWithRequest` clear `keep_running`. -/
theorem returns_iff (hsize : 0 < bufferSize) (keepRunning : List Str → Bool) (stream : Str) :
    (closingConnection bufferSize keepRunning stream).Inevitable
        (fun c => c.loop.returned = true) ⟨startRequestLoop, stream⟩ ↔
      Clears bufferSize keepRunning stream :=
  ⟨clears_of_returns hsize, returns_of_clears hsize⟩

/-- What a peer that registers sends before it closes. -/
def registerStream : Str := msgFrame (registerRequest 1)

/-- The one frame is a request to register. -/
theorem returns_iff_register :
    (closingConnection msgBufSize registerServerKeepRunning registerStream).Inevitable
      (fun c => c.loop.returned = true) ⟨startRequestLoop, registerStream⟩ :=
  (returns_iff (by decide) _ _).mpr ⟨0, by decide +kernel, by decide +kernel⟩

/-- A peer connects to the peer server and closes: the thread receives for ever. -/
theorem peer_never_returns :
    ¬(closingConnection msgBufSize peerServerKeepRunning []).Inevitable
      (fun c => c.loop.returned = true) ⟨startRequestLoop, []⟩ := by
  intro h
  obtain ⟨k, -, hclear⟩ := clears_of_returns (by decide) h
  cases hclear

end Closing

end P2PFileSharing
