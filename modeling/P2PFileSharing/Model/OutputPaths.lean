import P2PFileSharing.Model.FileClient

/-!
# `HandleObtainResponse` in the workers of the file client

Between the request header and its loop over `recv` the function makes a path for what it
receives: the directory, the number `m_obtain_num`, an underscore and the filename. It reads the
number and moves it on under `m_obtain_num_mutex`, which it takes a second time when the socket
is closed, to print the number.

A step is a call of the file client, or what a worker does in the function by itself up to the
next access that another worker could see. `m_obtain_num` is an `int`: the model ends a run
where it would overflow.
-/

namespace P2PFileSharing

/-- Where a worker is in `HandleObtainResponse`. -/
inductive ObtainPoint
  /-- `opendir`, and `mkdir` or `closedir`. -/
  | opendir (filename : Str)
  /-- Before `num_lock`. -/
  | numLock (filename : Str)
  /-- With the mutex, before the path is put together. -/
  | outFilePath (filename : Str)
  /-- With the mutex, before `m_obtain_num++`. -/
  | increment (path : Str)
  /-- With the mutex, at the end of its block. -/
  | unlock (path : Str)
  /-- In the loop over `recv`, up to the `close` of the socket. -/
  | receive (path : Str)
  /-- Before `num_lock2`. -/
  | numLock2
  /-- With the mutex, before the number is printed. -/
  | print
  deriving DecidableEq, Repr

/-- A download and the path that was chosen for it. -/
structure Download where
  worker : Nat
  filename : Str
  outFilePath : Str
  deriving DecidableEq, Repr

/-- The file client with its workers in `HandleObtainResponse`, and the downloads so far. -/
structure ObtainingClient where
  client : FileClient
  points : Nat → Option ObtainPoint
  obtainNum : Int
  obtainNumMutex : Option Nat
  downloads : List Download

inductive ObtainingLabel
  | client (l : FileClientLabel)
  /-- A worker goes on in `HandleObtainResponse` without a call. -/
  | obtain (i : Nat)

/-- A worker that comes to another point of the function, or leaves it. -/
def ObtainingClient.goTo (s : ObtainingClient) (i : Nat) (point : Option ObtainPoint) :
    ObtainingClient :=
  { s with points := Function.update s.points i point }

/-- `HandleObtainResponse`, apart from its loop. -/
def obtainStep (me : PeerID) (s : ObtainingClient) (i : Nat) :
    ObtainPoint → Option ObtainingClient
  | .opendir filename => some (s.goTo i (some (.numLock filename)))
  | .numLock filename =>
      if s.obtainNumMutex = none then
        some { s.goTo i (some (.outFilePath filename)) with obtainNumMutex := some i }
      else none
  | .outFilePath filename =>
      let path := obtainPath me s.obtainNum filename
      some { s.goTo i (some (.increment path)) with
        downloads := s.downloads ++ [⟨i, filename, path⟩] }
  | .increment path =>
      if IsInt (s.obtainNum + 1) then
        some { s.goTo i (some (.unlock path)) with obtainNum := s.obtainNum + 1 }
      else none
  | .unlock path => some { s.goTo i (some (.receive path)) with obtainNumMutex := none }
  | .receive _ => none
  | .numLock2 =>
      if s.obtainNumMutex = none then
        some { s.goTo i (some .print) with obtainNumMutex := some i }
      else none
  | .print => some { s.goTo i none with obtainNumMutex := none }

/-- A worker makes a call: it is not in the function, or in the loop. -/
def ObtainingClient.calls (s : ObtainingClient) (i : Nat) : Bool :=
  match s.points i with
  | none | some (.receive _) => true
  | _ => false

/-- Where a call leaves the worker that made it: `ExecObtainFile` calls the function, and the
loop ends with the `close` of the socket. -/
def ObtainingClient.afterCall (s : ObtainingClient) (i : Nat) (client : FileClient) :
    Option ObtainPoint :=
  match s.points i, client.workers[i]? with
  | none, some (.exec req (.recv _)) => some (.opendir req.filename)
  | some (.receive _), some .idle => some .numLock2
  | point, _ => point

/-- One step of the process. -/
def obtainingStep (me : PeerID) (s : ObtainingClient) : ObtainingLabel → Option ObtainingClient
  | .client (.call i result) =>
      if s.calls i then
        (fileClientStep s.client (.call i result)).map fun client =>
          { s.goTo i (s.afterCall i client) with client := client }
      else none
  | .client (.pop i) =>
      if s.points i = none then
        (fileClientStep s.client (.pop i)).map fun client => { s with client := client }
      else none
  | .client l => (fileClientStep s.client l).map fun client => { s with client := client }
  | .obtain i =>
      match s.points i with
      | none => none
      | some point => obtainStep me s i point

/-- The file client after `Init`. -/
def initialObtainingClient (threads : Nat) : ObtainingClient where
  client := initialFileClient threads
  points _ := none
  obtainNum := 0
  obtainNumMutex := none
  downloads := []

/-- The process as a transition system. -/
def obtainingClient (me : PeerID) (threads : Nat) : System ObtainingClient ObtainingLabel where
  init s := s = initialObtainingClient threads
  step s l s' := obtainingStep me s l = some s'

end P2PFileSharing
