import P2PFileSharing.Proofs.FileServer

/-!
# Who closes which descriptor

Every accepted connection is in one place: with the accept loop, in the queue, with
one worker, or closed. As long as whoever holds it is the only one to close it, and
lets it go by closing it, its number denotes it all the time. `ReceiveFile` closes
the descriptor that `HandleClient` closes after it, so a worker that serves a push
lets go of a connection it goes on to use.
-/

namespace P2PFileSharing

variable {threads : Nat} {s s' : FileServer} {l : FileServerLabel}

/-- Every close so far was of the connection it was meant for, every connection is held or
closed, and none is both or closed twice. -/
structure FileServer.ClosesOwn (s : FileServer) : Prop where
  own : ∀ c ∈ s.closed, c.denoted = some c.connection
  once : (s.held.map Accepted.connection ++ s.closed.map Close.connection).Perm
    (List.range s.accepted)

/-- The step starts no push. -/
def FileServer.NoPush (_ : FileServer) : FileServerLabel → Prop
  | .worker _ received => received ≠ .request (some .requestPushFile)
  | _ => True

instance (s : FileServer) (l : FileServerLabel) : Decidable (s.NoPush l) := by
  unfold FileServer.NoPush
  split <;> infer_instance

/-- The runs in which no worker serves a push. -/
def downloadsOnly (threads : Nat) : System FileServer FileServerLabel :=
  (fileServer threads).restrict FileServer.NoPush

/-! ## Moving, accepting, closing -/

/-- What is held is open under its number. -/
structure Accounted (descriptors : Nat → Option Nat) (held : List Accepted)
    (closed : List Close) (accepted : Nat) : Prop where
  opened : ∀ x ∈ held, descriptors x.fd = some x.connection
  own : ∀ c ∈ closed, c.denoted = some c.connection
  once : (held.map Accepted.connection ++ closed.map Close.connection).Perm (List.range accepted)

section Accounted

variable {descriptors : Nat → Option Nat} {held held' : List Accepted} {closed : List Close}
  {accepted : Nat} {x : Accepted}

theorem Accounted.move (h : Accounted descriptors held closed accepted) (hp : held'.Perm held) :
    Accounted descriptors held' closed accepted :=
  ⟨fun x hx => h.opened x (hp.mem_iff.mp hx), h.own, ((hp.map _).append_right _).trans h.once⟩

theorem Accounted.accept {fd : Nat} (h : Accounted descriptors held closed accepted)
    (hfd : descriptors fd = none) :
    Accounted (Function.update descriptors fd (some accepted)) (⟨fd, accepted⟩ :: held) closed
      (accepted + 1) := by
  refine ⟨?_, h.own, ?_⟩
  · intro x hx
    rcases List.mem_cons.mp hx with rfl | hx
    · exact Function.update_self ..
    · have hopen := h.opened x hx
      rw [Function.update_of_ne, hopen]
      rintro heq
      rw [heq, hfd] at hopen
      cases hopen
  · rw [List.range_succ, List.map_cons, List.cons_append]
    exact (h.once.cons accepted).trans (List.perm_append_singleton _ _).symm

theorem Accounted.close (h : Accounted descriptors (x :: held) closed accepted) :
    Accounted (Function.update descriptors x.fd none) held
      (closed ++ [⟨x.connection, descriptors x.fd⟩]) accepted := by
  have hx : descriptors x.fd = some x.connection := h.opened x List.mem_cons_self
  have hnodup := h.once.nodup_iff.mpr List.nodup_range
  refine ⟨?_, ?_, ?_⟩
  · intro y hy
    have hy' := h.opened y (List.mem_cons_of_mem _ hy)
    rw [Function.update_of_ne, hy']
    intro heq
    rw [heq, hx, Option.some.injEq] at hy'
    rw [List.map_cons, List.cons_append, List.nodup_cons] at hnodup
    refine hnodup.1 (List.mem_append_left _ ?_)
    rw [hy']
    exact List.mem_map_of_mem hy
  · intro c hc
    rcases List.mem_append.mp hc with hc | hc
    · exact h.own c hc
    · rw [List.mem_singleton.mp hc]
      exact hx
  · rw [List.map_append, ← List.append_assoc]
    refine (List.perm_append_singleton _ _).trans ?_
    exact h.once

end Accounted

/-! ## The steps -/

/-- What holds in runs without pushes. -/
structure FileServer.Sound (s : FileServer) : Prop where
  accounted : Accounted s.descriptors s.held s.closed s.accepted
  noPush : ∀ x, .receiveFile x ∉ s.workers

/-- A worker that goes on from one point to another. -/
theorem perm_set {i : Nat} {point point' : WorkerPoint} (h : s.workers[i]? = some point)
    {queue : List Accepted} (hqueue : (point.held ++ s.socketFdQueue).Perm (point'.held ++ queue)) :
    (s.accepting.held ++ (queue ++ (s.workers.set i point').flatMap WorkerPoint.held)).Perm
      s.held := by
  rw [List.perm_iff_count]
  intro x
  have hset := count_flatMap_set WorkerPoint.held h point' x
  have hcount := hqueue.count_eq x
  simp only [FileServer.held, List.count_append] at hcount ⊢
  omega

theorem notMem_set {i : Nat} {point : WorkerPoint} (h : ∀ x, .receiveFile x ∉ s.workers)
    (hp : ∀ x, .receiveFile x ≠ point) : ∀ x, .receiveFile x ∉ s.workers.set i point := by
  intro x hx
  rcases List.mem_or_eq_of_mem_set hx with hx | hx
  · exact h x hx
  · exact hp x hx

/-- A worker that closes what it holds. -/
theorem sound_close {i : Nat} {point : WorkerPoint} {x : Accepted} (h : s.Sound)
    (hi : s.workers[i]? = some point) (hx : point.held = [x]) :
    FileServer.Sound { s.close x with workers := s.workers.set i .uncount } := by
  refine ⟨?_, notMem_set h.noPush fun x hp => by cases hp⟩
  have hperm : (x :: (s.accepting.held ++ (s.socketFdQueue ++
      (s.workers.set i .uncount).flatMap WorkerPoint.held))).Perm s.held := by
    rw [List.perm_iff_count]
    intro y
    have hset := count_flatMap_set WorkerPoint.held hi .uncount y
    rw [hx, List.count_singleton, WorkerPoint.held, List.count_nil] at hset
    simp only [FileServer.held, List.count_append, List.count_cons]
    omega
  exact (h.accounted.move hperm).close

/-- Only a push lets go of a connection that is used afterwards. -/
theorem sound_worker {i : Nat} {received : FirstRecv} (h : s.Sound)
    (hno : received ≠ .request (some .requestPushFile))
    (hstep : fileServerStep s (.worker i received) = some s') : s'.Sound := by
  obtain ⟨point, point', hi, hcases⟩ := worker_cases hstep
  rcases hcases with ⟨x, rest, rfl, rfl, hq, rfl⟩ | ⟨x, hx, hx', ⟨rfl, hpush⟩ | ⟨rfl, rfl⟩⟩ |
    ⟨x, hx, rfl, rfl⟩ | ⟨rfl, rfl, rfl⟩
  · refine ⟨h.accounted.move (perm_set hi ?_), notMem_set h.noPush fun x hp => by cases hp⟩
    rw [hq]
    exact List.Perm.refl _
  · refine ⟨h.accounted.move (perm_set hi ?_), notMem_set h.noPush (hpush hno)⟩
    rw [hx, hx']
  · exact absurd (List.mem_of_getElem? hi) (h.noPush x)
  · exact sound_close h hi hx
  · exact ⟨h.accounted.move (perm_set hi (List.Perm.refl _)),
      notMem_set h.noPush fun x hp => by cases hp⟩

theorem sound_step (h : s.Sound) (hno : s.NoPush l) (hstep : fileServerStep s l = some s') :
    s'.Sound := by
  cases l with
  | accept fd =>
      obtain ⟨hacc, hfree, rfl⟩ := accept_cases hstep
      have hheld := h.accounted.accept hfree
      rw [FileServer.held, hacc] at hheld
      exact ⟨hheld, h.noPush⟩
  | count =>
      obtain ⟨x, hacc, ⟨-, rfl⟩ | ⟨-, rfl⟩⟩ := count_cases hstep
      · have hheld := h.accounted
        rw [FileServer.held, hacc] at hheld
        exact ⟨hheld.close, h.noPush⟩
      · have hheld := h.accounted
        rw [FileServer.held, hacc] at hheld
        exact ⟨hheld, h.noPush⟩
  | push =>
      obtain ⟨x, hacc, rfl⟩ := push_cases hstep
      have hheld := h.accounted
      rw [FileServer.held, hacc] at hheld
      refine ⟨hheld.move ?_, h.noPush⟩
      show ((s.socketFdQueue ++ [x]) ++ _).Perm (x :: (s.socketFdQueue ++ _))
      rw [List.append_assoc]
      exact List.perm_middle
  | worker i received => exact sound_worker h hno hstep

theorem reachable_sound (h : (downloadsOnly threads).Reachable s) : s.Sound := by
  refine h.invariant ?_ ?_
  · intro s h
    obtain rfl := h
    have hnone : (List.replicate threads WorkerPoint.idle).flatMap WorkerPoint.held = [] := by
      rw [List.flatMap_eq_nil_iff]
      intro point hp
      rw [(List.mem_replicate.mp hp).2]
      rfl
    refine ⟨?_, fun x hx => ?_⟩
    · rw [FileServer.held]
      show Accounted _ ([] ++ ([] ++ (List.replicate threads WorkerPoint.idle).flatMap _)) [] 0
      rw [hnone]
      exact ⟨fun _ h => (nomatch h), fun _ h => (nomatch h), List.Perm.refl _⟩
    · cases (List.mem_replicate.mp hx).2
  · intro s l s' _ hs h
    obtain ⟨hno, hstep⟩ := h
    exact sound_step hs hno hstep

/-- While no worker serves a push, every close is of the connection it was meant for, and
every accepted connection is still held or closed exactly once. -/
theorem closes_own (h : (downloadsOnly threads).Reachable s) : s.ClosesOwn :=
  ⟨(reachable_sound h).accounted.own, (reachable_sound h).accounted.once⟩

/-- A fixed run of the file server, which stops at a push if pushes are not wanted. -/
def fileServerRun (G : FileServer → FileServerLabel → Prop) [∀ s l, Decidable (G s l)]
    (ls : List FileServerLabel) : FileServer :=
  (System.runSteps (System.guarded fileServerStep G) (initialFileServer fileServerThreadNum)
    ls).getD (initialFileServer fileServerThreadNum)

theorem reachable_fileServerRun (G : FileServer → FileServerLabel → Prop)
    [∀ s l, Decidable (G s l)] (ls : List FileServerLabel) :
    ((fileServer fileServerThreadNum).restrict G).Reachable (fileServerRun G ls) := by
  refine System.Reachable.getD_runSteps (.init rfl) ?_
  intro l _ s s' hstep
  exact System.guarded_eq_some hstep

/-- A download is served on descriptor 5; then the number is given to the next connection, which
another worker serves. -/
def twoDownloads : List FileServerLabel :=
  [.accept 5, .count, .push, .worker 0 .failed,
    .worker 0 (.request (some .requestDownloadFile)), .worker 0 .failed, .worker 0 .failed,
    .accept 5, .count, .push, .worker 1 .failed, .worker 0 .failed,
    .worker 1 (.request (some .requestDownloadFile)), .worker 1 .failed, .worker 1 .failed]

theorem closes_own_twoDownloads :
    (fileServerRun FileServer.NoPush twoDownloads).closed = [⟨0, some 0⟩, ⟨1, some 1⟩] ∧
      (fileServerRun FileServer.NoPush twoDownloads).ClosesOwn :=
  ⟨by decide, closes_own (reachable_fileServerRun FileServer.NoPush twoDownloads)⟩

/-- A worker serves a push on descriptor 5; before its second close the number is given to
the next connection. -/
def pushThenAccept : List FileServerLabel :=
  [.accept 5, .count, .push, .worker 0 .failed, .worker 0 (.request (some .requestPushFile)),
    .worker 0 .failed, .accept 5, .worker 0 .failed]

/-- The worker that serves connection 0 closes connection 1. -/
theorem closes_other :
    (fileServer fileServerThreadNum).Reachable (fileServerRun (fun _ _ => True) pushThenAccept) ∧
      (⟨0, some 1⟩ : Close) ∈ (fileServerRun (fun _ _ => True) pushThenAccept).closed :=
  ⟨(reachable_fileServerRun (fun _ _ => True) pushThenAccept).of_restrict, by decide⟩

end P2PFileSharing
