import P2PFileSharing.Proofs.FileTransfer

/-!
# When a finished download is complete

`ExecObtainFile` puts a request back that it could not send; after that it counts on the
server. `HandleObtainResponse` opens the output file to append before the first byte comes,
and stops at the end of what comes, whether that was the file, a part of it or nothing. So
what a finished download leaves is what the path held before, and after it what came.
-/

namespace P2PFileSharing

variable {t server : FileTree} {me : PeerID} {obtainNum port : Int} {filename ip : Str}
  {calls : ClientCalls}

/-- The request was put back and the files are as they were, or it was not and the output file
is the served one. -/
def CompleteOrRequeued (t : FileTree) (me : PeerID) (obtainNum : Int) (filename ip : Str)
    (port : Int) (calls : ClientCalls) (server : FileTree) : Prop :=
  ∃ r, execObtainFile t me obtainNum filename ip port calls = some r ∧
    match r.requeued with
    | some request =>
        request = ⟨.requestDownloadFile, filename, ip, port⟩ ∧ r.tree = t
    | none =>
        ∃ content, server.readFile (sharedPath filename) = some content ∧
          r.tree.readFile (obtainPath me obtainNum filename) = some content

/-- The header fits the frame, and the request could not be sent, or the server has the file
and what the output path held, with what came after it, is that file. -/
def Delivered (t : FileTree) (me : PeerID) (obtainNum : Int) (filename : Str)
    (calls : ClientCalls) (server : FileTree) : Prop :=
  (createRequestHeader .requestDownloadFile filename).length ≤ msgBufSize ∧
    (calls.sent ≤ 0 ∨
      ∃ content p held, server.readFile (sharedPath filename) = some content ∧
        (ensureDir t (receiveDir me)).appendable (obtainPath me obtainNum filename) =
          some (p, held) ∧ held ++ receivedBytes calls.received = content)

theorem execObtainFile_sent (hc : calls.connected = true)
    (hfit : (createRequestHeader .requestDownloadFile filename).length ≤ msgBufSize)
    (hs : ¬calls.sent ≤ 0) :
    execObtainFile t me obtainNum filename ip port calls =
      some (handleObtainResponse t me obtainNum filename calls.received) := by
  rw [execObtainFile, if_pos hc, requestFrame, if_pos hfit]
  exact if_neg hs

/-- An obtain keeps its word if and only if it could not connect, or the request was
delivered. -/
theorem complete_or_requeued_iff :
    CompleteOrRequeued t me obtainNum filename ip port calls server ↔
      calls.connected = false ∨ Delivered t me obtainNum filename calls server := by
  cases hc : calls.connected with
  | false =>
      have hexec : execObtainFile t me obtainNum filename ip port calls =
          some ⟨t, obtainNum, some ⟨.requestDownloadFile, filename, ip, port⟩⟩ := by
        rw [execObtainFile, if_neg (by rw [hc]; nofun)]
      exact ⟨fun _ => .inl rfl, fun _ => ⟨_, hexec, rfl, rfl⟩⟩
  | true =>
      rw [Delivered, eq_false (show ¬(true = false) by nofun), false_or]
      by_cases hfit : (createRequestHeader .requestDownloadFile filename).length ≤ msgBufSize
      · by_cases hs : calls.sent ≤ 0
        · have hexec : execObtainFile t me obtainNum filename ip port calls =
              some ⟨t, obtainNum, some ⟨.requestDownloadFile, filename, ip, port⟩⟩ := by
            rw [execObtainFile, if_pos hc, requestFrame, if_pos hfit]
            exact if_pos hs
          exact ⟨fun _ => ⟨hfit, .inl hs⟩, fun _ => ⟨_, hexec, rfl, rfl⟩⟩
        · have hexec : execObtainFile t me obtainNum filename ip port calls =
              some (handleObtainResponse t me obtainNum filename calls.received) :=
            execObtainFile_sent hc hfit hs
          constructor
          · intro h
            obtain ⟨r, hr, h⟩ := h
            rw [hexec] at hr
            cases hr
            rw [requeued_handleObtainResponse] at h
            obtain ⟨content, hserver, hread⟩ := h
            obtain ⟨p, held, hp, hbytes⟩ := readFile_handleObtainResponse.mp hread
            exact ⟨hfit, .inr ⟨content, p, held, hserver, hp, hbytes⟩⟩
          · intro h
            obtain ⟨-, hsent | ⟨content, p, held, hserver, hp, hbytes⟩⟩ := h
            · exact absurd hsent hs
            · refine ⟨_, hexec, ?_⟩
              rw [requeued_handleObtainResponse]
              exact ⟨content, hserver, readFile_handleObtainResponse.mpr ⟨p, held, hp, hbytes⟩⟩
      · have hexec : execObtainFile t me obtainNum filename ip port calls = none := by
          rw [execObtainFile, if_pos hc, requestFrame, if_neg hfit]
        constructor
        · intro h
          obtain ⟨r, hr, -⟩ := h
          rw [hexec] at hr
          cases hr
        · intro h
          obtain ⟨h, -⟩ := h
          exact absurd h hfit

/-- A server with one file, `a`. -/
def oneFileServer : FileTree :=
  newDirectory.setNode ["shared_files".toList, ['a']] (.file "hi".toList)

/-- The server accepts the connection and closes it at once, being at its limit. -/
def refused : ClientCalls := ⟨fun _ => true, 1024, [.data []]⟩

/-- The download is over, and its file is empty. -/
theorem finishes_empty :
    oneFileServer.readFile (sharedPath ['a']) = some "hi".toList ∧
      ¬CompleteOrRequeued newDirectory 1 0 ['a'] "10.0.0.2".toList 3000 refused oneFileServer := by
  refine ⟨by decide, ?_⟩
  intro h
  obtain ⟨r, hr, h⟩ := h
  rw [execObtainFile_sent (by decide) (by decide) (by decide)] at hr
  cases hr
  rw [requeued_handleObtainResponse] at h
  obtain ⟨content, hserver, hread⟩ := h
  have hempty : (handleObtainResponse newDirectory 1 0 ['a'] [.data []]).tree.readFile
      (obtainPath 1 0 ['a']) = some [] := by decide
  have hfile : oneFileServer.readFile (sharedPath ['a']) = some "hi".toList := by decide
  rw [hfile] at hserver
  cases hserver
  rw [show refused.received = [.data []] from rfl, hempty] at hread
  cases hread

end P2PFileSharing
