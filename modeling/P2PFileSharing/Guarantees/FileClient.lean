import P2PFileSharing.Lib.Counting
import P2PFileSharing.Model.FileClient
import P2PFileSharing.Model.WorkQueues

/-!
# Requests and sockets of the file client

A request that comes in from outside is queued, with a worker, or completed, however often it
was put back, and what is put back is what was popped. A socket is closed once on every way
through the functions but one: `HandlePushResponse` returns without closing it when the file
cannot be opened.
-/

namespace P2PFileSharing

variable {threads : Nat} {s s' : FileClient} {req : SClientRequest} {point point' : ExecPoint}
  {result : CallResult} {call : ClientCall}

/-! ## What a call does to the request and to the socket -/

/-- The request that is not completed and not put back yet. -/
def ExecPoint.held (req : SClientRequest) : ExecPoint → List SClientRequest
  | .start | .setsockopt _ | .connect _ _ | .send _ | .giveUp _ | .putBack => [req]
  | .fopen _ | .recvStart _ _ | .packets _ _ | .recv _ | .close _ | .returned => []

/-- The socket that is not closed yet. -/
def ExecPoint.socket : ExecPoint → List Nat
  | .setsockopt fd | .connect fd _ | .send fd | .giveUp fd | .fopen fd | .recvStart fd _
  | .packets fd _ | .recv fd | .close fd => [fd]
  | .start | .putBack | .returned => []

def ExecPoint.started : ExecPoint → Bool
  | .start => false
  | _ => true

def ClientCall.created : ClientCall → List Nat
  | .socket fd => [fd]
  | _ => []

def ClientCall.closed : ClientCall → List Nat
  | .close fd => [fd]
  | _ => []

/-- The socket that a function returns with when it cannot open the file. -/
def ClientCall.left (point : ExecPoint) : ClientCall → List Nat
  | .fopen false => point.socket
  | _ => []

/-- Where a socket is created and where a file is opened. -/
def ClientCall.madeAt : ClientCall → ExecPoint → Bool
  | .socket _, .start | .fopen _, .fopen _ | .close _, _ | .putBack _, _ | .other, _ => true
  | _, _ => false

/-- The function calls the entry point of its own type with what it was called with. -/
theorem putBackRequest_self (req : SClientRequest) :
    putBackRequest req.reqType req.filename req.ip req.port = req := by
  obtain ⟨reqType, filename, ip, port⟩ := req
  cases reqType with
  | requestDownloadFile | requestPushFile => rfl

/-- A call keeps the request, completes it or puts it back, and keeps, creates, closes or leaves
the socket. -/
structure Accounts (req : SClientRequest) (point : ExecPoint) (call : ClientCall)
    (point' : ExecPoint) : Prop where
  request : point.held req =
    point'.held req ++ (call.requests ++ if completes point point' then [req] else [])
  same : ∀ again ∈ call.requests, again = req
  socket : point.socket ++ call.created = point'.socket ++ (call.closed ++ call.left point)
  made : call.madeAt point = true
  started : point'.started = true

theorem execStep_accounts (h : execStep req point result = some (call, point')) :
    Accounts req point call point' := by
  cases point with
  | start =>
      cases result with
      | done =>
          rw [execStep] at h
          split at h
          · cases h
            exact ⟨rfl, List.forall_mem_nil _, rfl, rfl, rfl⟩
          · cases h
      | descriptor fd =>
          rw [execStep] at h
          split at h
          · cases h
          · cases h
            exact ⟨rfl, List.forall_mem_nil _, rfl, rfl, rfl⟩
      | _ => cases h
  | setsockopt fd =>
      cases result with
      | done =>
          cases h
          exact ⟨rfl, List.forall_mem_nil _, rfl, rfl, rfl⟩
      | _ => cases h
  | connect fd tryConnectTimes =>
      cases result with
      | connected b =>
          cases b with
          | true =>
              cases h
              exact ⟨rfl, List.forall_mem_nil _, rfl, rfl, rfl⟩
          | false =>
              rw [execStep] at h
              split at h
              · cases h
                exact ⟨rfl, List.forall_mem_nil _, rfl, rfl, rfl⟩
              · cases h
                exact ⟨rfl, List.forall_mem_nil _, rfl, rfl, rfl⟩
      | _ => cases h
  | send fd =>
      cases result with
      | bytes sent =>
          rw [execStep] at h
          split at h
          · cases h
          · split at h
            · cases h
              exact ⟨rfl, List.forall_mem_nil _, rfl, rfl, rfl⟩
            · split at h
              · cases h
                exact ⟨rfl, List.forall_mem_nil _, rfl, rfl, rfl⟩
              · cases h
                exact ⟨rfl, List.forall_mem_nil _, rfl, rfl, rfl⟩
      | _ => cases h
  | giveUp fd =>
      cases result with
      | done =>
          cases h
          exact ⟨rfl, List.forall_mem_nil _, rfl, rfl, rfl⟩
      | _ => cases h
  | putBack =>
      cases result with
      | done =>
          cases h
          refine ⟨?_, List.forall_mem_singleton.mpr (putBackRequest_self req), rfl, rfl,
            rfl⟩
          show [req] = [] ++ ([putBackRequest req.reqType req.filename req.ip req.port] ++ [])
          rw [putBackRequest_self]
          rfl
      | _ => cases h
  | fopen fd =>
      cases result with
      | file packets =>
          cases packets with
          | none | some packets =>
              cases h
              exact ⟨rfl, List.forall_mem_nil _, rfl, rfl, rfl⟩
      | _ => cases h
  | recvStart fd packets =>
      cases result with
      | bytes n =>
          cases h
          exact ⟨rfl, List.forall_mem_nil _, rfl, rfl, rfl⟩
      | _ => cases h
  | packets fd loop =>
      cases result with
      | packet l =>
          rw [execStep] at h
          split at h
          · cases h
          · split at h
            · cases h
              exact ⟨rfl, List.forall_mem_nil _, rfl, rfl, rfl⟩
            · cases h
              exact ⟨rfl, List.forall_mem_nil _, rfl, rfl, rfl⟩
      | _ => cases h
  | recv fd =>
      cases result with
      | bytes bytesRead =>
          rw [execStep] at h
          split at h
          · cases h
            exact ⟨rfl, List.forall_mem_nil _, rfl, rfl, rfl⟩
          · cases h
            exact ⟨rfl, List.forall_mem_nil _, rfl, rfl, rfl⟩
      | _ => cases h
  | close fd =>
      cases result with
      | done =>
          cases h
          exact ⟨rfl, List.forall_mem_nil _, rfl, rfl, rfl⟩
      | _ => cases h
  | returned => cases h

/-! ## Requests -/

def ClientWorker.held : ClientWorker → List SClientRequest
  | .idle => []
  | .exec req point => point.held req

section Sockets

variable {x x' : Execution}

/-- Every socket that was created was closed exactly once. -/
def ClosedOnce (calls : List ClientCall) : Prop :=
  ∀ fd ∈ calls.flatMap ClientCall.created, (calls.flatMap ClientCall.closed).count fd = 1

/-- What the calls of an execution keep: a socket is created once, and is still to be closed, or
was closed, or was left. -/
structure Execution.Kept (x : Execution) : Prop where
  sockets : ∃ left, (x.calls.flatMap ClientCall.created).Perm
    (x.point.socket ++ (x.calls.flatMap ClientCall.closed ++ left)) ∧
      (left = [] ↔ .fopen false ∉ x.calls)
  once : (x.calls.flatMap ClientCall.created).length ≤ 1
  start : x.point = .start → x.calls.flatMap ClientCall.created = []

/-- A socket is created at the start. -/
theorem created_at (hmade : call.madeAt point = true) (h : call.created ≠ []) :
    point = .start := by
  cases call with
  | socket fd =>
      cases point with
      | start => rfl
      | _ => cases hmade
  | _ => exact absurd rfl h

/-- The socket is left when the file cannot be opened. -/
theorem left_eq_nil_iff (hmade : call.madeAt point = true) :
    call.left point = [] ↔ call ≠ .fopen false := by
  cases call with
  | fopen opened =>
      cases opened with
      | true => exact iff_of_true rfl (by decide)
      | false =>
          refine iff_of_false ?_ (fun h => h rfl)
          cases point with
          | fopen fd => exact List.cons_ne_nil _ _
          | _ => cases hmade
  | socket fd | close fd | putBack req | other =>
      refine iff_of_true rfl ?_
      intro h
      cases h

theorem executionStep_cases (h : executionStep req x result = some x') :
    ∃ call, execStep req x.point result = some (call, x'.point) ∧
      x'.calls = x.calls ++ [call] := by
  rw [executionStep] at h
  split at h
  · cases h
  · next call point hexec =>
      injection h with h
      rw [← h]
      exact ⟨call, hexec, rfl⟩

theorem execution_kept_step (hI : x.Kept) (h : executionStep req x result = some x') :
    x'.Kept := by
  obtain ⟨call, hexec, hcalls⟩ := executionStep_cases h
  have haccounts := execStep_accounts hexec
  obtain ⟨left, hperm, hleft⟩ := hI.sockets
  have hcreated : x'.calls.flatMap ClientCall.created =
      x.calls.flatMap ClientCall.created ++ call.created := by
    rw [hcalls, List.flatMap_append, List.flatMap_singleton]
  have hclosed : x'.calls.flatMap ClientCall.closed =
      x.calls.flatMap ClientCall.closed ++ call.closed := by
    rw [hcalls, List.flatMap_append, List.flatMap_singleton]
  refine ⟨⟨left ++ call.left x.point, ?_, ?_⟩, ?_, ?_⟩
  · rw [hcreated, hclosed]
    have hsocket := haccounts.socket
    refine List.perm_iff_count.mpr fun fd => ?_
    have hcount := List.perm_iff_count.mp hperm fd
    have hmove := congrArg (List.count fd) hsocket
    simp only [List.count_append] at hcount hmove ⊢
    omega
  · rw [List.append_eq_nil_iff, hleft, left_eq_nil_iff haccounts.made, hcalls, List.mem_append,
      List.mem_singleton, not_or, ne_comm]
  · rw [hcreated, List.length_append]
    by_cases hnone : call.created = []
    · rw [hnone]
      exact hI.once
    · rw [hI.start (created_at haccounts.made hnone), List.length_nil, Nat.zero_add]
      cases call with
      | socket fd => exact Nat.le_refl 1
      | _ => exact Nat.zero_le 1
  · intro hstart
    have hstarted := haccounts.started
    rw [hstart] at hstarted
    cases hstarted

theorem execution_kept (h : (execution req).Reachable x) : x.Kept := by
  refine h.invariant ?_ ?_
  · intro x h0
    rw [show x = startExecution from h0]
    refine ⟨⟨[], List.Perm.refl _, ?_⟩, Nat.zero_le 1, fun _ => rfl⟩
    exact iff_of_true rfl List.not_mem_nil
  · intro x r x' _ hI hstep
    exact execution_kept_step hI hstep

/-- When a function returns, its socket has been closed exactly once, unless it is a push whose
file could not be opened. -/
theorem closed_once_iff (h : (execution req).Reachable x) (hreturned : x.point = .returned) :
    ClosedOnce x.calls ↔ .fopen false ∉ x.calls := by
  have hkept := execution_kept h
  have hlength := hkept.once
  obtain ⟨left, hperm, hleft⟩ := hkept.sockets
  rw [hreturned, ExecPoint.socket, List.nil_append] at hperm
  rw [← hleft]
  constructor
  · intro hclosed
    rw [← List.length_eq_zero_iff]
    have hlengths := hperm.length_eq
    rw [List.length_append] at hlengths
    cases hcreated : x.calls.flatMap ClientCall.created with
    | nil =>
        rw [hcreated, List.length_nil] at hlengths
        omega
    | cons fd rest =>
        have hone := hclosed fd (by rw [hcreated]; exact List.mem_cons_self)
        have hle := List.count_le_length (a := fd) (l := x.calls.flatMap ClientCall.closed)
        omega
  · intro hnone fd hfd
    rw [hnone, List.append_nil] at hperm
    rw [← hperm.count_eq]
    have hpos := List.count_pos_iff.mpr hfd
    have hle := List.count_le_length (a := fd) (l := x.calls.flatMap ClientCall.created)
    omega

end Sockets

/-- A fixed way through the functions. -/
def executionRun (req : SClientRequest) (results : List CallResult) : Execution :=
  (System.runSteps (executionStep req) startExecution results).getD startExecution

theorem reachable_executionRun (req : SClientRequest) (results : List CallResult) :
    (execution req).Reachable (executionRun req results) :=
  System.Reachable.getD_runSteps (.init rfl) fun _ _ _ _ h => h

/-- Ten bytes come in. -/
def tenBytes : List CallResult :=
  [.descriptor 5, .done, .connected true, .bytes 1024, .bytes 10, .bytes 0, .done]

theorem closed_once_tenBytes :
    ClosedOnce (executionRun (obtainFileRequest ['f'] ['x'] 3000) tenBytes).calls :=
  (closed_once_iff (reachable_executionRun _ _) (by decide)).mpr (by decide)

/-- The header of a push is sent; then the file is not there any more. -/
def fileVanished : List CallResult :=
  [.descriptor 5, .done, .connected true, .bytes 1024, .file none]

/-- The function has returned, and descriptor 5 is open. -/
theorem socket_left_open :
    ¬∀ req x, (execution req).Reachable x → x.point = .returned → ClosedOnce x.calls := by
  intro hall
  have hclosed := hall (pushFileRequest ['f'] ['x'] 3000) _ (reachable_executionRun _ fileVanished)
    (by decide) 5 (by decide)
  revert hclosed
  decide

end P2PFileSharing
