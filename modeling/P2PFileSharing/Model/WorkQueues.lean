import P2PFileSharing.Lib.WorkQueue
import P2PFileSharing.Model.FileServer

/-!
# The four work queues of a peer

Each has a mutex and a condition variable of its own. The functions that push lock, push,
unlock and call `notify_one`; the threads that pop wait with the predicate that the queue is
not empty, test once more, take the front and unlock.
-/

namespace P2PFileSharing

/-- `FILE_CLIENT_THREAD_NUM`. -/
def fileClientThreadNum : Nat := 2

/-- The queues, by what is in them. -/
inductive QueueName
  /-- `m_messages_queue`: `HandleMessage` pushes, `HandleMessageThread` pops. -/
  | messages
  /-- `m_broadcast_queue`: `Broadcast` pushes, `BroadcastProcessThread` pops. -/
  | broadcasts
  /-- `m_request_queue` of `CPeerFileClient`: `PushFile` and `ObtainFile` push,
  `HandleRequestThreadFunc` pops. -/
  | requests
  /-- `m_socket_fd_queue` of `CPeerFileServer`: `Run` pushes, `HandleRequestThreadFunc` pops. -/
  | socketFds
  deriving DecidableEq, Repr

/-- What is pushed. -/
def QueueName.Item : QueueName → Type
  | .messages => Str
  | .broadcasts => Str × PeerID
  | .requests => SClientRequest
  | .socketFds => Nat

/-- How many threads pop. -/
def QueueName.threads : QueueName → Nat
  | .messages | .broadcasts => 1
  | .requests => fileClientThreadNum
  | .socketFds => fileServerThreadNum

/-- The state of a queue with so many threads that push and that pop. -/
abbrev QueueName.State (q : QueueName) (producers consumers : Nat) : Type :=
  WorkQueue q.Item (Fin producers) (Fin consumers)

/-- The queue and its threads as a transition system. -/
def QueueName.system (q : QueueName) (producers consumers : Nat) :
    System (q.State producers consumers)
      (WorkQueueLabel q.Item (Fin producers) (Fin consumers)) :=
  workQueue q.Item (Fin producers) (Fin consumers)

end P2PFileSharing
