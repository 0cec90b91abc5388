import P2PFileSharing.Lib.Runs
import P2PFileSharing.Model.FileTransfer
import P2PFileSharing.Model.RegisterServer
import P2PFileSharing.Model.Wire

/-!
# `CTcpServer::HandleRequest`: the receive loop of one connection

The inner loop receives into a zeroed buffer until `m_buffer_size` bytes are there or `recv`
fails, and the buffer goes to `DealWithRequest` in either case. The outer loop ends when
`DealWithRequest` has cleared `keep_running`, or when it finds `errorRecv` set. A `recv` that
returns 0, which is what it does for good once the other side has closed, is added like any
other.

`DealWithRequest` is what the two servers override. All that the loop sees of it is
`keep_running`, so it is a parameter here: the value it leaves there, from the buffers it was
given so far.
-/

namespace P2PFileSharing

/-- The bytes of a call of `recv`. -/
def RecvResult.bytes : RecvResult → Str
  | .failed => []
  | .data bytes => bytes

/-- The handler thread of a connection: the bytes received into the buffer, what the calls of
`recv` returned, and the buffers passed to `DealWithRequest`. -/
structure RequestLoop where
  buffer : Str
  errorRecv : Bool
  returned : Bool
  results : List RecvResult
  dispatched : List Str
  deriving DecidableEq, Repr

section

variable (bufferSize : Nat) (keepRunning : List Str → Bool)

/-- `DealWithRequest` with the buffer, and the conditions of the outer loop. -/
def RequestLoop.dispatch (s : RequestLoop) : RequestLoop :=
  let dispatched := s.dispatched ++ [pad bufferSize '\x00' s.buffer]
  { s with
    buffer := []
    returned := !keepRunning dispatched || s.errorRecv
    dispatched := dispatched }

/-- One call of `recv`, with what follows up to the next one. -/
def requestStep (s : RequestLoop) (result : RecvResult) : Option RequestLoop :=
  if s.returned then none
  else
    match result with
    | .failed =>
        some ({ s with errorRecv := true, results := s.results ++ [result] }.dispatch bufferSize
          keepRunning)
    | .data bytes =>
        if bytes.length ≤ bufferSize - s.buffer.length then
          let s := { s with buffer := s.buffer ++ bytes, results := s.results ++ [result] }
          some (if s.buffer.length < bufferSize then s else s.dispatch bufferSize keepRunning)
        else none

/-- Nothing was received yet. -/
def startRequestLoop : RequestLoop := ⟨[], false, false, [], []⟩

/-- The loop as a transition system, whatever `recv` returns. -/
def handleRequest : System RequestLoop RecvResult where
  init s := s = startRequestLoop
  step s result s' := requestStep bufferSize keepRunning s result = some s'

/-- A handler thread, and what of a finite stream is still to come. -/
structure ClosingConnection where
  loop : RequestLoop
  unread : Str
  deriving DecidableEq, Repr

/-- A connection over which a finite stream comes, in any pieces, and which the other side then
closes: every further `recv` returns 0. -/
def closingConnection (stream : Str) : System ClosingConnection RecvResult where
  init s := s = ⟨startRequestLoop, stream⟩
  step s result s' := ∃ bytes, result = .data bytes ∧ bytes <+: s.unread ∧
    (bytes = [] → s.unread = []) ∧
    requestStep bufferSize keepRunning s.loop result = some s'.loop ∧
    s'.unread = s.unread.drop bytes.length

end

/-! ## The two servers -/

/-- `CPeerServer::DealWithRequest` leaves `keep_running` alone. -/
def peerServerKeepRunning (_ : List Str) : Bool := true

/-- The messages it hands to `HandleMessage`. -/
def peerServerMessages (dispatched : List Str) : List Str :=
  (dispatched.map cString).filter fun message => message ≠ []

/-- `CRegisterServer::DealWithRequest` clears it when it has sent its response, and does not
return otherwise. -/
def registerServerKeepRunning (_ : List Str) : Bool := false

end P2PFileSharing
