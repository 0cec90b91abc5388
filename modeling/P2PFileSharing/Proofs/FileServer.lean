import P2PFileSharing.Lib.Counting
import P2PFileSharing.Model.FileServer

/-!
# What the steps of a file server do

Who has which connection, and one lemma for each kind of step: what it needs and what it
leaves behind. The invariants of the file server are proved from these.
-/

namespace P2PFileSharing

variable {s s' : FileServer}

/-- The connection that a worker has yet to close. -/
def WorkerPoint.held : WorkerPoint → List Accepted
  | .handleClient x | .sendFile x | .receiveFile x | .close x => [x]
  | .idle | .uncount => []

def FileAcceptPoint.held : FileAcceptPoint → List Accepted
  | .count x | .push x => [x]
  | .accept => []

/-- The connections that are not closed, by who has them. -/
def FileServer.held (s : FileServer) : List Accepted :=
  s.accepting.held ++ (s.socketFdQueue ++ s.workers.flatMap WorkerPoint.held)

/-! ## The accept loop -/

theorem accept_cases {fd : Nat} (h : fileServerStep s (.accept fd) = some s') :
    s.accepting = .accept ∧ s.descriptors fd = none ∧
      s' = { s with
        descriptors := Function.update s.descriptors fd (some s.accepted)
        accepting := .count ⟨fd, s.accepted⟩
        accepted := s.accepted + 1 } := by
  rw [fileServerStep] at h
  split at h
  · next hacc =>
      injection h with h
      exact ⟨hacc.1, hacc.2, h.symm⟩
  · cases h

/-- What the accept loop does when it holds `m_socket_fd_counts_mutex`. -/
theorem count_cases (h : fileServerStep s .count = some s') :
    ∃ x, s.accepting = .count x ∧
      ((s.socketFdCounts > maxSocketFdQueueSize ∧ s' = { s.close x with accepting := .accept }) ∨
        (s.socketFdCounts ≤ maxSocketFdQueueSize ∧
          s' = { s with socketFdCounts := s.socketFdCounts + 1, accepting := .push x })) := by
  rw [fileServerStep] at h
  split at h
  · next x hacc =>
      refine ⟨x, hacc, ?_⟩
      split at h
      · next hgt =>
          injection h with h
          exact .inl ⟨hgt, h.symm⟩
      · next hle =>
          injection h with h
          exact .inr ⟨Int.not_lt.mp hle, h.symm⟩
  · cases h

theorem push_cases (h : fileServerStep s .push = some s') :
    ∃ x, s.accepting = .push x ∧
      s' = { s with socketFdQueue := s.socketFdQueue ++ [x], accepting := .accept } := by
  rw [fileServerStep] at h
  split at h
  · next x hacc =>
      injection h with h
      exact ⟨x, hacc, h.symm⟩
  · cases h

/-! ## The workers -/

/-- A worker pops; or goes on with its connection, having started a push or not; or closes it
for the first time, at the end of a push, or for the last; or takes it off the count. -/
theorem worker_cases {i : Nat} {received : FirstRecv}
    (h : fileServerStep s (.worker i received) = some s') :
    ∃ point point', s.workers[i]? = some point ∧
      ((∃ x rest, point = .idle ∧ point' = .handleClient x ∧ s.socketFdQueue = x :: rest ∧
          s' = { s with socketFdQueue := rest, workers := s.workers.set i point' }) ∨
        (∃ x, point.held = [x] ∧ point'.held = [x] ∧
          ((s' = { s with workers := s.workers.set i point' } ∧
              (received ≠ .request (some .requestPushFile) → ∀ y, .receiveFile y ≠ point')) ∨
            (s' = { s.close x with workers := s.workers.set i point' } ∧
              point = .receiveFile x))) ∨
        (∃ x, point.held = [x] ∧ point' = .uncount ∧
          s' = { s.close x with workers := s.workers.set i point' }) ∨
        (point = .uncount ∧ point' = .idle ∧
          s' = { s with
            socketFdCounts := s.socketFdCounts - 1
            workers := s.workers.set i point' })) := by
  dsimp only [fileServerStep] at h
  split at h
  · cases h
  · next point hi =>
      split at h
      · cases h
      · next t point' hw =>
          injection h with h
          rw [← h]
          refine ⟨point, point', hi, ?_⟩
          cases point with
          | idle =>
              rw [workerStep] at hw
              split at hw
              · cases hw
              · next x rest hq =>
                  cases hw
                  exact .inl ⟨x, rest, rfl, rfl, hq, rfl⟩
          | handleClient x =>
              cases received with
              | failed =>
                  cases hw
                  exact .inr (.inr (.inl ⟨x, rfl, rfl, rfl⟩))
              | request reqType =>
                  refine .inr (.inl ⟨x, rfl, ?_⟩)
                  cases reqType with
                  | none =>
                      cases hw
                      exact ⟨rfl, .inl ⟨rfl, fun _ y hy => by cases hy⟩⟩
                  | some reqType =>
                      cases reqType with
                      | requestDownloadFile =>
                          cases hw
                          exact ⟨rfl, .inl ⟨rfl, fun _ y hy => by cases hy⟩⟩
                      | requestPushFile =>
                          cases hw
                          exact ⟨rfl, .inl ⟨rfl, fun hno => absurd rfl hno⟩⟩
          | sendFile x =>
              cases hw
              exact .inr (.inl ⟨x, rfl, rfl, .inl ⟨rfl, fun _ y hy => by cases hy⟩⟩)
          | receiveFile x =>
              cases hw
              exact .inr (.inl ⟨x, rfl, rfl, .inr ⟨rfl, rfl⟩⟩)
          | close x =>
              cases hw
              exact .inr (.inr (.inl ⟨x, rfl, rfl, rfl⟩))
          | uncount =>
              cases hw
              exact .inr (.inr (.inr ⟨rfl, rfl, rfl⟩))

end P2PFileSharing
