import P2PFileSharing.Lib.Runs
import P2PFileSharing.Model.PeerClient

/-!
# `CPeerFileServer`: the accept loop, the workers and their descriptors

`Run` accepts connections, counts them and queues their descriptors; each worker
pops one, serves it in `HandleClient` and takes it off the count. A descriptor is
a number: `accept` returns any that is not open, and `close` ends whatever the
number denotes at that moment.

A step is one section under a lock, or one system call on a descriptor. What a
worker receives and sends in between is left out here: all that matters is which
way `HandleClient` goes.
-/

namespace P2PFileSharing

/-- `MAX_SOCKET_FD_QUEUE_SIZE`. -/
def maxSocketFdQueueSize : Int := 300

/-- `FILE_SERVER_THREAD_NUM`. -/
def fileServerThreadNum : Nat := 4

/-- A descriptor that `accept` returned, with the connection it was returned for. -/
structure Accepted where
  fd : Nat
  connection : Nat
  deriving DecidableEq, Repr

/-- What the first `recv` of `HandleClient` finds: an error, or a request, of one of the two
types or of none. -/
inductive FirstRecv
  | failed
  | request (reqType : Option ERequestType)
  deriving DecidableEq, Repr

/-- Where a worker is. -/
inductive WorkerPoint
  /-- `HandleRequestThreadFunc`, waiting for a descriptor. -/
  | idle
  /-- `HandleClient`, before its `recv`. -/
  | handleClient (x : Accepted)
  | sendFile (x : Accepted)
  /-- `ReceiveFile`, up to and with its `close`. -/
  | receiveFile (x : Accepted)
  /-- The `close` at the end of `HandleClient`. -/
  | close (x : Accepted)
  /-- Before it locks `m_socket_fd_counts_mutex`. -/
  | uncount
  deriving DecidableEq, Repr

/-- Where the accept loop is. -/
inductive FileAcceptPoint
  | accept
  /-- Before it locks `m_socket_fd_counts_mutex`. -/
  | count (x : Accepted)
  /-- Before it locks `m_socket_fd_queue_mutex`. -/
  | push (x : Accepted)
  deriving DecidableEq, Repr

/-- A `close` that was executed: for which connection, and what the number denoted. -/
structure Close where
  connection : Nat
  denoted : Option Nat
  deriving DecidableEq, Repr

/-- The file server of a peer, with the connections open under each number, and the number
of connections accepted and the closes executed so far. -/
structure FileServer where
  descriptors : Nat → Option Nat
  socketFdCounts : Int
  socketFdQueue : List Accepted
  accepting : FileAcceptPoint
  workers : List WorkerPoint
  accepted : Nat
  closed : List Close

inductive FileServerLabel
  /-- `accept` returns a number. -/
  | accept (fd : Nat)
  | count
  | push
  /-- A worker's next step; what it receives matters only at its `recv`. -/
  | worker (i : Nat) (received : FirstRecv)
  deriving DecidableEq, Repr

/-- `close(fd)`. -/
def FileServer.close (s : FileServer) (x : Accepted) : FileServer :=
  { s with
    descriptors := Function.update s.descriptors x.fd none
    closed := s.closed ++ [⟨x.connection, s.descriptors x.fd⟩] }

/-- One step of a worker: what it leaves behind and where it goes on. -/
def workerStep (s : FileServer) (received : FirstRecv) :
    WorkerPoint → Option (FileServer × WorkerPoint)
  | .idle =>
      match s.socketFdQueue with
      | [] => none
      | x :: rest => some ({ s with socketFdQueue := rest }, .handleClient x)
  | .handleClient x =>
      match received with
      | .failed => some (s.close x, .uncount)
      | .request (some .requestDownloadFile) => some (s, .sendFile x)
      | .request (some .requestPushFile) => some (s, .receiveFile x)
      | .request none => some (s, .close x)
  | .sendFile x => some (s, .close x)
  | .receiveFile x => some (s.close x, .close x)
  | .close x => some (s.close x, .uncount)
  | .uncount => some ({ s with socketFdCounts := s.socketFdCounts - 1 }, .idle)

/-- One step of the process. -/
def fileServerStep (s : FileServer) : FileServerLabel → Option FileServer
  | .accept fd =>
      if s.accepting = .accept ∧ s.descriptors fd = none then
        some
          { s with
            descriptors := Function.update s.descriptors fd (some s.accepted)
            accepting := .count ⟨fd, s.accepted⟩
            accepted := s.accepted + 1 }
      else none
  | .count =>
      match s.accepting with
      | .count x =>
          if s.socketFdCounts > maxSocketFdQueueSize then
            some { s.close x with accepting := .accept }
          else some { s with socketFdCounts := s.socketFdCounts + 1, accepting := .push x }
      | _ => none
  | .push =>
      match s.accepting with
      | .push x => some { s with socketFdQueue := s.socketFdQueue ++ [x], accepting := .accept }
      | _ => none
  | .worker i received =>
      match s.workers[i]? with
      | none => none
      | some point =>
          match workerStep s received point with
          | none => none
          | some (s', point') => some { s' with workers := s.workers.set i point' }

/-- The file server after `Init`, with some number of workers. -/
def initialFileServer (threads : Nat) : FileServer where
  descriptors _ := none
  socketFdCounts := 0
  socketFdQueue := []
  accepting := .accept
  workers := List.replicate threads .idle
  accepted := 0
  closed := []

/-- The file server as a transition system. -/
def fileServer (threads : Nat) : System FileServer FileServerLabel where
  init s := s = initialFileServer threads
  step s l s' := fileServerStep s l = some s'

end P2PFileSharing
