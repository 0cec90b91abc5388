import P2PFileSharing.Proofs.FileServer

/-!
# Counting the connections of a file server

The count goes up when `Run` lets a connection in and down when its worker is done with it.
The history of a run tells which connections were refused and which were taken by whom.
-/

namespace P2PFileSharing

variable {threads : Nat} {s s' : FileServer} {l : FileServerLabel}

/-! ## What is counted -/

/-- Between its increment and its push. -/
def FileAcceptPoint.counted : FileAcceptPoint → Nat
  | .push _ => 1
  | .accept | .count _ => 0

/-- Between a pop and its decrement. -/
def WorkerPoint.counted : WorkerPoint → Nat
  | .idle => 0
  | _ => 1

/-- The connections that were not refused nor decremented for. -/
def FileServer.counted (s : FileServer) : Nat :=
  s.accepting.counted + (s.socketFdQueue.length + (s.workers.map WorkerPoint.counted).sum)

theorem counted_of_held {point : WorkerPoint} {x : Accepted} (h : point.held = [x]) :
    point.counted = 1 := by
  cases point with
  | idle => cases h
  | handleClient | sendFile | receiveFile | close | uncount => rfl

/-! ## The count -/

theorem sum_counted_set {workers : List WorkerPoint} {i : Nat} {point : WorkerPoint}
    (h : workers[i]? = some point) (point' : WorkerPoint) :
    ((workers.set i point').map WorkerPoint.counted).sum + point.counted =
      (workers.map WorkerPoint.counted).sum + point'.counted := by
  obtain ⟨pre, post, heq, hset⟩ := exists_split_of_getElem? h
  rw [hset, heq]
  simp only [List.map_append, List.map_cons, List.sum_append, List.sum_cons]
  omega

theorem counted_step (hI : s.socketFdCounts = s.counted) (h : fileServerStep s l = some s') :
    s'.socketFdCounts = s'.counted := by
  cases l with
  | accept fd =>
      obtain ⟨hacc, -, rfl⟩ := accept_cases h
      rw [FileServer.counted, hacc] at hI
      exact hI
  | count =>
      obtain ⟨x, hacc, ⟨-, rfl⟩ | ⟨-, rfl⟩⟩ := count_cases h
      · rw [FileServer.counted, hacc] at hI
        exact hI
      · rw [FileServer.counted, hacc] at hI
        dsimp only [FileServer.counted, FileAcceptPoint.counted] at hI ⊢
        omega
  | push =>
      obtain ⟨x, hacc, rfl⟩ := push_cases h
      rw [FileServer.counted, hacc] at hI
      dsimp only [FileServer.counted, FileAcceptPoint.counted] at hI ⊢
      rw [List.length_append, List.length_singleton]
      omega
  | worker i received =>
      rw [FileServer.counted] at hI ⊢
      obtain ⟨point, point', hi, hcases⟩ := worker_cases h
      have hsum := sum_counted_set hi point'
      rcases hcases with ⟨x, rest, rfl, rfl, hq, rfl⟩ | ⟨x, hx, hx', ⟨rfl, -⟩ | ⟨rfl, -⟩⟩ |
        ⟨x, hx, rfl, rfl⟩ | ⟨rfl, rfl, rfl⟩
      · rw [hq, List.length_cons] at hI
        dsimp only [WorkerPoint.counted] at hsum ⊢
        omega
      · rw [counted_of_held hx, counted_of_held hx'] at hsum
        dsimp only
        omega
      · rw [counted_of_held hx, counted_of_held hx'] at hsum
        dsimp only [FileServer.close]
        omega
      · rw [counted_of_held hx] at hsum
        dsimp only [FileServer.close, WorkerPoint.counted] at hsum ⊢
        omega
      · dsimp only [WorkerPoint.counted] at hsum ⊢
        omega

/-- `m_socket_fd_counts` is exact. -/
theorem socketFdCounts_exact (h : (fileServer threads).Reachable s) :
    s.socketFdCounts = s.counted := by
  refine h.invariant (I := fun s => s.socketFdCounts = s.counted) ?_ ?_
  · intro s h0
    rw [show s = initialFileServer threads from h0]
    have hsum : ((List.replicate threads WorkerPoint.idle).map WorkerPoint.counted).sum = 0 := by
      rw [List.map_replicate, List.sum_replicate]
      rfl
    dsimp only [FileServer.counted, initialFileServer, FileAcceptPoint.counted]
    rw [hsum]
    rfl
  · intro s l s' _ hI hstep
    exact counted_step hI hstep

/-! ## Refused or taken -/

/-- The file server with the connections that `Run` refused and those that workers popped, each
with the worker, so far. Only numbers are queued: a connection is the one that the number denotes
when it is closed or popped. No transition reads the two lists. -/
structure Served where
  server : FileServer
  refused : List (Option Nat)
  taken : List (Option Nat × Nat)

/-- The connection that `Run` refuses in this step. -/
def FileServer.refusing (s : FileServer) : FileServerLabel → List (Option Nat)
  | .count =>
      match s.accepting with
      | .count x => if s.socketFdCounts > maxSocketFdQueueSize then [s.descriptors x.fd] else []
      | _ => []
  | _ => []

/-- The connection that a worker pops in this step. -/
def FileServer.taking (s : FileServer) : FileServerLabel → List (Option Nat × Nat)
  | .worker i _ =>
      match s.workers[i]?, s.socketFdQueue with
      | some .idle, x :: _ => [(s.descriptors x.fd, i)]
      | _, _ => []
  | _ => []

def servedStep (s : Served) (l : FileServerLabel) : Option Served :=
  (fileServerStep s.server l).map fun server =>
    { server := server
      refused := s.refused ++ s.server.refusing l
      taken := s.taken ++ s.server.taking l }

/-- The file server with this history as a transition system. -/
def serving (threads : Nat) : System Served FileServerLabel where
  init s := s = ⟨initialFileServer threads, [], []⟩
  step s l s' := servedStep s l = some s'

/-- What `Run` has not decided on or not handed to a worker yet. -/
def FileServer.unserved (s : FileServer) : List Accepted := s.accepting.held ++ s.socketFdQueue

/-- The connections that these numbers denote. -/
def FileServer.waiting (s : FileServer) : List (Option Nat) :=
  s.unserved.map fun x => s.descriptors x.fd

/-- What the workers have yet to close. -/
def FileServer.serving (s : FileServer) : List Accepted := s.workers.flatMap WorkerPoint.held

/-- `accept` returns no number that a worker has closed and is to close again. -/
def FileServer.NoReuse (s : FileServer) : FileServerLabel → Prop
  | .accept fd => fd ∉ s.serving.map Accepted.fd
  | _ => True

instance decidableNoReuse (s : FileServer) : (l : FileServerLabel) → Decidable (s.NoReuse l)
  | .accept fd => inferInstanceAs (Decidable (fd ∉ s.serving.map Accepted.fd))
  | .count | .push | .worker _ _ => inferInstanceAs (Decidable True)

/-- What the steps of such runs keep: nobody else has a number that somebody has, what waits is
open under its number, and only what was refused or taken was closed. -/
structure Served.Kept (s : Served) : Prop where
  apart : ((s.server.unserved ++ s.server.serving).map Accepted.fd).Nodup
  opened : ∀ x ∈ s.server.unserved, s.server.descriptors x.fd = some x.connection
  /-- A worker may have closed what it has. -/
  own : ∀ x ∈ s.server.serving, ∀ c, s.server.descriptors x.fd = some c → c = x.connection
  once : ((s.server.unserved.map fun x => some x.connection) ++
    (s.refused ++ s.taken.map Prod.fst)).Perm ((List.range s.server.accepted).map some)
  taken : ∀ x ∈ s.server.serving, some x.connection ∈ s.taken.map Prod.fst
  closed : ∀ c, some c ∈ s.server.closed.map Close.denoted →
    some c ∈ s.refused ++ s.taken.map Prod.fst
  closed_once : ∀ c ∈ s.refused, (s.server.closed.map Close.denoted).count c = 1

section Kept

variable {s s' : Served} {x : Accepted}

/-- A connection is in one place only. -/
theorem Served.Kept.nodup (h : s.Kept) :
    ((s.server.unserved.map fun x => some x.connection) ++
      (s.refused ++ s.taken.map Prod.fst)).Nodup :=
  h.once.nodup_iff.mpr (List.nodup_range.map (Option.some_injective Nat))

/-- What waits was neither refused nor taken. -/
theorem Served.Kept.new (h : s.Kept) (hx : x ∈ s.server.unserved) :
    some x.connection ∉ s.refused ++ s.taken.map Prod.fst := by
  intro hmem
  have hwaits : some x.connection ∈ s.server.unserved.map fun x => some x.connection :=
    List.mem_map_of_mem hx
  exact (List.nodup_append.mp h.nodup).2.2 _ hwaits _ hmem rfl

end Kept

end P2PFileSharing
