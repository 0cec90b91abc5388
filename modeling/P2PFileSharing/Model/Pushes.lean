import P2PFileSharing.Lib.Runs
import P2PFileSharing.Model.FileTransfer

/-!
# Two pushes of one filename

`FILE_SERVER_THREAD_NUM` workers serve the connections, and nothing keeps two of them from
receiving the same filename: several peers that replicate a file may choose the same target.
Each opens the path with a stream of its own, which empties the file, writes what arrives at
the offset of its stream, in pieces of any size, and closes it. A push whose file could not
be opened is not received at all, so an opening here is one that succeeds.
-/

namespace P2PFileSharing

/-- The two workers. -/
inductive Worker
  | first | second
  deriving DecidableEq, Repr

/-- Where a worker is in `ReceiveFile`. -/
inductive ReceivePoint
  | opening
  /-- With the stream open: the file, and how many bytes were written. -/
  | writing (outFile : List (List Char)) (written : Nat)
  | closed
  deriving DecidableEq, Repr

/-- The files of the peer, and its two workers. -/
structure Pushes where
  tree : FileTree
  points : Worker → ReceivePoint

inductive PushLabel
  | openTrunc (w : Worker)
  /-- The stream writes the next so many bytes. -/
  | write (w : Worker) (bytes : Nat)
  /-- The sender has closed its side, and the stream is closed. -/
  | close (w : Worker)
  deriving DecidableEq, Repr

def Pushes.setPoint (s : Pushes) (w : Worker) (point : ReceivePoint) : Pushes :=
  { s with points := Function.update s.points w point }

section

variable (me : PeerID) (filename : Str) (contents : Worker → Str)

/-- One step of a worker. -/
def pushStep (s : Pushes) : PushLabel → Option Pushes
  | .openTrunc w =>
      match s.points w with
      | .opening =>
          match (ensureDir s.tree (receiveDir me)).openTrunc (receivePath me filename) with
          | some (outFile, tree) => some ({ s with tree := tree }.setPoint w (.writing outFile 0))
          | none => none
      | _ => none
  | .write w bytes =>
      match s.points w with
      | .writing outFile written =>
          if 0 < bytes ∧ written + bytes ≤ (contents w).length then
            let tree := s.tree.writeAt outFile written (((contents w).drop written).take bytes)
            some ({ s with tree := tree }.setPoint w (.writing outFile (written + bytes)))
          else none
      | _ => none
  | .close w =>
      match s.points w with
      | .writing _ written =>
          if written = (contents w).length then some (s.setPoint w .closed) else none
      | _ => none

/-- The two receptions as a transition system, in the files the peer has. -/
def pushes (t : FileTree) : System Pushes PushLabel where
  init s := s = ⟨t, fun _ => .opening⟩
  step s l s' := pushStep me filename contents s l = some s'

/-- How far a worker is in what it writes. -/
def ReceivePoint.position (content : Str) : ReceivePoint → Nat
  | .opening => 0
  | .writing _ written => written
  | .closed => content.length

/-- The other worker does not empty the file once one has written to it, and writes, when that
one has opened the file, only where it is yet to write. -/
def Spares (w : Worker) (s : Pushes) : PushLabel → Prop
  | .openTrunc v => v ≠ w → (s.points w).position (contents w) = 0
  | .write v bytes => v ≠ w → s.points w ≠ .opening →
      (s.points w).position (contents w) ≤ (s.points v).position (contents v) ∧
        (s.points v).position (contents v) + bytes ≤ (contents w).length
  | .close _ => True

instance decidableSpares (w : Worker) (s : Pushes) (l : PushLabel) :
    Decidable (Spares contents w s l) :=
  match l with
  | .openTrunc _ => inferInstanceAs (Decidable (_ → _))
  | .write _ _ => inferInstanceAs (Decidable (_ → _ → _ ∧ _))
  | .close _ => inferInstanceAs (Decidable True)

end

end P2PFileSharing
