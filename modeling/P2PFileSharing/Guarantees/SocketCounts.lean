import P2PFileSharing.Guarantees.Descriptors
import P2PFileSharing.Proofs.SocketCounts

/-!
# The connections a file server counts

`Run` counts a connection before it queues it, and a worker takes it off the count after it
has served it, each under another mutex than that of the queue. The count is exact all the
same. Every connection is refused by `Run` or goes to one worker as long as the number in the
queue denotes it: a worker that serves a push closes its number twice, and if `accept` returned
the number in between, the connection that came on it is closed before a worker has it. `Run`
compares with `>` before it counts, so the count gets one above `MAX_SOCKET_FD_QUEUE_SIZE`.
-/

namespace P2PFileSharing

variable {threads : Nat} {s s' : FileServer} {l : FileServerLabel}

/-! ## The count -/

/-- `Run` does not let a connection in when there are `MAX_SOCKET_FD_QUEUE_SIZE` on the count;
`>` does, and `>=` would not. -/
def FileServer.NotAtLimit (s : FileServer) : FileServerLabel → Prop
  | .count => s.socketFdCounts ≠ maxSocketFdQueueSize
  | _ => True

/-- The connections that were not refused and are not served to the end. -/
def FileServer.unfinished (s : FileServer) : Nat :=
  s.accepting.counted + (s.socketFdQueue.length + (s.workers.flatMap WorkerPoint.held).length)

/-- A connection that is not served to the end is still on the count. -/
theorem unfinished_le_counted (s : FileServer) : s.unfinished ≤ s.counted := by
  have hworkers : (s.workers.flatMap WorkerPoint.held).length ≤
      (s.workers.map WorkerPoint.counted).sum := by
    rw [List.length_flatMap]
    refine List.sum_le_sum fun point _ => ?_
    cases point with
    | idle | uncount => exact Nat.zero_le _
    | handleClient | sendFile | receiveFile | close => exact Nat.le_refl 1
  dsimp only [FileServer.unfinished, FileServer.counted]
  omega

theorem counts_le_step (hI : s.socketFdCounts ≤ maxSocketFdQueueSize) (hlimit : s.NotAtLimit l)
    (h : fileServerStep s l = some s') : s'.socketFdCounts ≤ maxSocketFdQueueSize := by
  cases l with
  | accept fd =>
      obtain ⟨-, -, rfl⟩ := accept_cases h
      exact hI
  | count =>
      obtain ⟨x, hacc, ⟨-, rfl⟩ | ⟨-, rfl⟩⟩ := count_cases h
      · exact hI
      · have hne : s.socketFdCounts ≠ maxSocketFdQueueSize := hlimit
        show s.socketFdCounts + 1 ≤ maxSocketFdQueueSize
        omega
  | push =>
      obtain ⟨x, -, rfl⟩ := push_cases h
      exact hI
  | worker i received =>
      obtain ⟨point, point', -, hcases⟩ := worker_cases h
      rcases hcases with ⟨x, rest, -, -, -, rfl⟩ | ⟨x, -, -, ⟨rfl, -⟩ | ⟨rfl, -⟩⟩ |
        ⟨x, -, -, rfl⟩ | ⟨-, -, rfl⟩
      · exact hI
      · exact hI
      · exact hI
      · exact hI
      · show s.socketFdCounts - 1 ≤ maxSocketFdQueueSize
        omega

/-- As long as `Run` lets nobody in at the limit, there are at most `MAX_SOCKET_FD_QUEUE_SIZE`
connections that are not refused and not served to the end. -/
theorem cap_holds (h : ((fileServer threads).restrict FileServer.NotAtLimit).Reachable s) :
    (s.unfinished : Int) ≤ maxSocketFdQueueSize := by
  have hcounts : s.socketFdCounts ≤ maxSocketFdQueueSize := by
    refine h.invariant (I := fun s => s.socketFdCounts ≤ maxSocketFdQueueSize) ?_ ?_
    · intro s h0
      rw [show s = initialFileServer threads from h0]
      show (0 : Int) ≤ 300
      decide
    · intro s l s' _ hI hstep
      exact counts_le_step hI hstep.1 hstep.2
  have hcounted := socketFdCounts_exact h.of_restrict
  have hle := unfinished_le_counted s
  omega

/-- So many connections came in, each on a descriptor of its own, and no worker got to run. -/
structure FileServer.Filled (s : FileServer) (n : Nat) : Prop where
  accepting : s.accepting = .accept
  counts : s.socketFdCounts = n
  queue : s.socketFdQueue.length = n
  free : ∀ fd, n ≤ fd → s.descriptors fd = none

/-- One more comes in, unless the count is above the limit. -/
theorem FileServer.Filled.more {n : Nat} (h : s.Filled n) (hn : n ≤ 300) :
    ∃ s₁ s₂ s', fileServerStep s (.accept n) = some s₁ ∧ s₁.socketFdCounts = n ∧
      fileServerStep s₁ .count = some s₂ ∧ fileServerStep s₂ .push = some s' ∧
      s'.Filled (n + 1) := by
  have hle : ¬s.socketFdCounts > maxSocketFdQueueSize := by
    rw [h.counts, maxSocketFdQueueSize]
    omega
  refine ⟨_, _, _, if_pos ⟨h.accepting, h.free n (Nat.le_refl n)⟩, h.counts, if_neg hle, rfl, rfl,
    ?_, ?_, ?_⟩
  · show s.socketFdCounts + 1 = ((n + 1 : Nat) : Int)
    have hcounts := h.counts
    omega
  · show (s.socketFdQueue ++ [_]).length = n + 1
    rw [List.length_append, List.length_singleton, h.queue]
  · intro fd hfd
    show Function.update s.descriptors n _ fd = none
    rw [Function.update_of_ne (by omega)]
    exact h.free fd (by omega)

/-- Up to the limit nobody comes in at it. -/
theorem exists_filled (threads n : Nat) (hn : n ≤ 300) :
    ∃ s, ((fileServer threads).restrict FileServer.NotAtLimit).Reachable s ∧ s.Filled n := by
  induction n with
  | zero => exact ⟨initialFileServer threads, .init rfl, rfl, rfl, rfl, fun _ _ => rfl⟩
  | succ n ih =>
      obtain ⟨s, hs, hfilled⟩ := ih (by omega)
      obtain ⟨s₁, s₂, s', haccept, hcounts, hcount, hpush, hfilled'⟩ := hfilled.more (by omega)
      have hlimit : s₁.socketFdCounts ≠ maxSocketFdQueueSize := by
        rw [hcounts, maxSocketFdQueueSize]
        omega
      have hs₁ : ((fileServer threads).restrict FileServer.NotAtLimit).Reachable s₁ :=
        .step (.accept n) hs ⟨trivial, haccept⟩
      have hs₂ : ((fileServer threads).restrict FileServer.NotAtLimit).Reachable s₂ :=
        .step .count hs₁ ⟨hlimit, hcount⟩
      exact ⟨s', .step .push hs₂ ⟨trivial, hpush⟩, hfilled'⟩

/-- With all the connections there may be. -/
theorem cap_holds_full :
    ∃ s, ((fileServer fileServerThreadNum).restrict FileServer.NotAtLimit).Reachable s ∧
      s.socketFdCounts = maxSocketFdQueueSize ∧ (s.unfinished : Int) = maxSocketFdQueueSize := by
  obtain ⟨s, hs, hfilled⟩ := exists_filled fileServerThreadNum 300 (Nat.le_refl _)
  have hle := cap_holds hs
  have hqueue := hfilled.queue
  refine ⟨s, hs, hfilled.counts, ?_⟩
  dsimp only [FileServer.unfinished, maxSocketFdQueueSize] at hle ⊢
  omega

/-- With 301 connections queued there is one too many. -/
theorem cap_exceeded :
    ¬∀ s, (fileServer fileServerThreadNum).Reachable s →
      (s.unfinished : Int) ≤ maxSocketFdQueueSize := by
  intro hcap
  obtain ⟨s, hs, hfilled⟩ := exists_filled fileServerThreadNum 300 (Nat.le_refl _)
  obtain ⟨s₁, s₂, s', haccept, -, hcount, hpush, hfilled'⟩ := hfilled.more (Nat.le_refl _)
  have hs₁ : (fileServer fileServerThreadNum).Reachable s₁ :=
    .step (.accept 300) hs.of_restrict haccept
  have hs₂ : (fileServer fileServerThreadNum).Reachable s₂ := .step .count hs₁ hcount
  have hle := hcap s' (.step .push hs₂ hpush)
  have hqueue := hfilled'.queue
  dsimp only [FileServer.unfinished, maxSocketFdQueueSize] at hle
  omega

end P2PFileSharing
