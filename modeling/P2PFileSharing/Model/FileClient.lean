import P2PFileSharing.Model.Packets

/-!
# `CPeerFileClient`: the request queue and its workers, call by call

`PushFile` and `ObtainFile` queue a request; each worker pops one and carries it out in
`ExecPushFile` or `ExecObtainFile`, and from there in the handler of the response. Where the
connection or the request header fails, the function closes its socket and queues the request
again through the same two entry points.

A step of a worker is one call with the computation up to the next one. What `socket` and
`setsockopt` return matters only as far as the process exits if one fails, so only a success
is a step.
-/

namespace P2PFileSharing

/-- The request that `PushFile` queues. -/
def pushFileRequest (filename ip : Str) (port : Int) : SClientRequest :=
  ⟨.requestPushFile, filename, ip, port⟩

/-- The request that `ObtainFile` queues. -/
def obtainFileRequest (filename ip : Str) (port : Int) : SClientRequest :=
  ⟨.requestDownloadFile, filename, ip, port⟩

/-- The call by which `ExecPushFile` and `ExecObtainFile` put a request back. -/
def putBackRequest (reqType : ERequestType) (filename ip : Str) (port : Int) : SClientRequest :=
  match reqType with
  | .requestPushFile => pushFileRequest filename ip port
  | .requestDownloadFile => obtainFileRequest filename ip port

/-! ## One request -/

/-- Where a worker is in the functions that carry out a request. -/
inductive ExecPoint
  /-- At the start of `ExecPushFile` or `ExecObtainFile`. -/
  | start
  | setsockopt (fd : Nat)
  | connect (fd tryConnectTimes : Nat)
  /-- Before the request header is sent. -/
  | send (fd : Nat)
  /-- Not connected, or the header was not sent: before `close`. -/
  | giveUp (fd : Nat)
  /-- Before the call of `PushFile` or `ObtainFile`. -/
  | putBack
  /-- `HandlePushResponse`, before `fopen`. -/
  | fopen (fd : Nat)
  /-- It waits for the server. -/
  | recvStart (fd : Nat) (packets : List Str)
  | packets (fd : Nat) (loop : PacketLoop)
  /-- `HandleObtainResponse`, in its loop. -/
  | recv (fd : Nat)
  /-- The `close` at the end of both handlers. -/
  | close (fd : Nat)
  | returned
  deriving DecidableEq

/-- What the next call returns. -/
inductive CallResult
  /-- Nothing that matters. -/
  | done
  /-- A new descriptor. -/
  | descriptor (fd : Nat)
  | connected (b : Bool)
  /-- How many bytes were sent or received. -/
  | bytes (n : Int)
  /-- The file that was opened, as what `fread` will return of it. -/
  | file (packets : Option (List Str))
  | packet (l : PacketLabel)
  deriving DecidableEq

/-- A call that was made, as far as the descriptor and the queue are concerned. -/
inductive ClientCall
  | socket (fd : Nat)
  | fopen (opened : Bool)
  | close (fd : Nat)
  /-- `PushFile` or `ObtainFile`. -/
  | putBack (req : SClientRequest)
  | other
  deriving DecidableEq

/-- One call while a request is carried out, and where it leads. -/
def execStep (req : SClientRequest) : ExecPoint → CallResult → Option (ClientCall × ExecPoint)
  | .start, .done =>
      -- only `ExecPushFile` looks at the filename
      if req.reqType = .requestPushFile ∧ req.filename = [] then some (.other, .returned) else none
  | .start, .descriptor fd =>
      if req.reqType = .requestPushFile ∧ req.filename = [] then none
      else some (.socket fd, .setsockopt fd)
  | .setsockopt fd, .done => some (.other, .connect fd 0)
  | .connect fd _, .connected true => some (.other, .send fd)
  | .connect fd tryConnectTimes, .connected false =>
      if tryConnectTimes + 1 > maxTryConnectTimes then some (.other, .giveUp fd)
      else some (.other, .connect fd (tryConnectTimes + 1))
  | .send fd, .bytes sent =>
      match requestFrame req.reqType req.filename with
      | none => none
      | some _ =>
          if sent ≤ 0 then some (.other, .giveUp fd)
          else
            match req.reqType with
            | .requestPushFile => some (.other, .fopen fd)
            | .requestDownloadFile => some (.other, .recv fd)
  | .giveUp fd, .done => some (.close fd, .putBack)
  | .putBack, .done =>
      some (.putBack (putBackRequest req.reqType req.filename req.ip req.port), .returned)
  | .fopen _, .file none => some (.fopen false, .returned)
  | .fopen fd, .file (some packets) => some (.fopen true, .recvStart fd packets)
  | .recvStart fd packets, .bytes _ =>
      some (.other, .packets fd (handlePushResponseLoop packets))
  | .packets fd loop, .packet l =>
      match packetStep loop l with
      | none => none
      | some loop' =>
          if loop'.point = .done then some (.other, .close fd)
          else some (.other, .packets fd loop')
  | .recv fd, .bytes bytesRead =>
      if bytesRead ≤ 0 then some (.other, .close fd) else some (.other, .recv fd)
  | .close fd, .done => some (.close fd, .returned)
  | _, _ => none

/-- A request being carried out, and the calls made so far. -/
structure Execution where
  point : ExecPoint
  calls : List ClientCall

def executionStep (req : SClientRequest) (s : Execution) (r : CallResult) : Option Execution :=
  match execStep req s.point r with
  | none => none
  | some (call, point) => some ⟨point, s.calls ++ [call]⟩

/-- `ExecPushFile` or `ExecObtainFile` is called. -/
def startExecution : Execution := ⟨.start, []⟩

/-- Carrying out one request as a transition system. -/
def execution (req : SClientRequest) : System Execution CallResult where
  init s := s = startExecution
  step s r s' := executionStep req s r = some s'

/-! ## The workers -/

/-- Where a worker is in `HandleRequestThreadFunc`. -/
inductive ClientWorker
  | idle
  | exec (req : SClientRequest) (point : ExecPoint)

/-- The file client, with the requests submitted from outside, those completed, and those put
back, each with the one that was popped, so far. -/
structure FileClient where
  requestQueue : List SClientRequest
  workers : List ClientWorker
  submitted : List SClientRequest
  completed : List SClientRequest
  returnedToQueue : List (SClientRequest × SClientRequest)

inductive FileClientLabel
  | pushFile (filename ip : Str) (port : Int)
  | obtainFile (filename ip : Str) (port : Int)
  | pop (i : Nat)
  | call (i : Nat) (result : CallResult)

/-- The call that queues a request. -/
def submitLabel (req : SClientRequest) : FileClientLabel :=
  match req.reqType with
  | .requestPushFile => .pushFile req.filename req.ip req.port
  | .requestDownloadFile => .obtainFile req.filename req.ip req.port

/-- A request comes in from outside. -/
def FileClient.submit (s : FileClient) (req : SClientRequest) : FileClient :=
  { s with requestQueue := s.requestQueue ++ [req], submitted := s.submitted ++ [req] }

/-- The requests a call puts into the queue. -/
def ClientCall.requests : ClientCall → List SClientRequest
  | .putBack req => [req]
  | _ => []

/-- Whether a request is done with here: the header was sent and the handler of the response is
entered, or a push of no file is discarded. -/
def completes : ExecPoint → ExecPoint → Bool
  | .start, .returned | .send _, .fopen _ | .send _, .recv _ => true
  | _, _ => false

/-- Back to the queue at the end. -/
def ClientWorker.next (req : SClientRequest) : ExecPoint → ClientWorker
  | .returned => .idle
  | point => .exec req point

/-- One step of the client. -/
def fileClientStep (s : FileClient) : FileClientLabel → Option FileClient
  | .pushFile filename ip port => some (s.submit (pushFileRequest filename ip port))
  | .obtainFile filename ip port => some (s.submit (obtainFileRequest filename ip port))
  | .pop i =>
      match s.workers[i]?, s.requestQueue with
      | some .idle, req :: rest =>
          some { s with requestQueue := rest, workers := s.workers.set i (.exec req .start) }
      | _, _ => none
  | .call i result =>
      match s.workers[i]? with
      | some (.exec req point) =>
          match execStep req point result with
          | none => none
          | some (call, point') =>
              some
                { s with
                  requestQueue := s.requestQueue ++ call.requests
                  workers := s.workers.set i (.next req point')
                  completed := s.completed ++ (if completes point point' then [req] else [])
                  returnedToQueue :=
                    s.returnedToQueue ++ call.requests.map fun again => (req, again) }
      | _ => none

/-- The client after `Init`, with some number of workers. -/
def initialFileClient (threads : Nat) : FileClient where
  requestQueue := []
  workers := List.replicate threads .idle
  submitted := []
  completed := []
  returnedToQueue := []

end P2PFileSharing
