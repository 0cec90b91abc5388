import P2PFileSharing.Model.FileTransfer

/-!
# `HandleClient` with its arrays

`HandleClient` keeps a request in `msg_buffer`, an array of `MSG_BUF_SIZE` bytes, and the
places of its newlines in `pos`, which has `PACKET_SPLIT_NUM_REQUEST` entries and is not
initialised. Here every access is checked: one outside an array and the use of an entry that
was never assigned end the function with a fault, as an exception that escapes does. The
source has no check of its own.
-/

namespace P2PFileSharing

/-- What is wrong with an access, or the exception that escapes. -/
inductive ArrayFault
  /-- An index outside `msg_buffer`. -/
  | msgBuffer (i : Nat)
  /-- An index outside `pos`. -/
  | pos (i : Nat)
  | other (f : Fault)
  deriving DecidableEq, Repr

/-- `pos`, with the entries that were assigned. -/
abbrev Positions := List (Option Nat)

def readBuffer (msgBuffer : Str) (i : Nat) : Except ArrayFault Char :=
  match msgBuffer[i]? with
  | some c => .ok c
  | none => .error (.msgBuffer i)

def writeBuffer (msgBuffer : Str) (i : Nat) (c : Char) : Except ArrayFault Str :=
  if i < msgBuffer.length then .ok (msgBuffer.set i c) else .error (.msgBuffer i)

/-- `std::string(msg_buffer + start, count)`. -/
def readString (msgBuffer : Str) (start count : Nat) : Except ArrayFault Str :=
  if start + count ≤ msgBuffer.length then .ok ((msgBuffer.drop start).take count)
  else .error (.msgBuffer (start + count - 1))

def readPos (pos : Positions) (i : Nat) : Except ArrayFault Nat :=
  match pos[i]? with
  | some (some n) => .ok n
  | some none => .error (.other .missingField)
  | none => .error (.pos i)

def writePos (pos : Positions) (i n : Nat) : Except ArrayFault Positions :=
  if i < pos.length then .ok (pos.set i (some n)) else .error (.pos i)

/-- The scanning loop, with so many bytes to go. -/
def scanNewlines (msgBuffer : Str) : Nat → Nat → Positions → Nat → Except ArrayFault Positions
  | 0, _, pos, _ => .ok pos
  | left + 1, i, pos, counter => do
      let c ← readBuffer msgBuffer i
      if c = '\n' then
        let pos ← writePos pos counter i
        if counter + 1 = packetSplitNumRequest then return pos
        else scanNewlines msgBuffer left (i + 1) pos (counter + 1)
      else scanNewlines msgBuffer left (i + 1) pos counter

/-- A conversion, whose exceptions nothing catches. -/
def convert {α : Type} : Except Fault α → Except ArrayFault α
  | .ok a => .ok a
  | .error f => .error (.other f)

/-- What `HandleClient` reads from what its `recv` returned: the request type, converted before
the second entry of `pos` is used, and the filename. -/
def parseArrays (bytes : Str) : Except ArrayFault (Int × Str) := do
  let msgBuffer ← writeBuffer (pad msgBufSize '\x00' bytes) bytes.length '\x00'
  let pos ← scanNewlines msgBuffer bytes.length 0 (List.replicate packetSplitNumRequest none) 0
  let pos₀ ← readPos pos 0
  let requestType ← convert (stoi (← readString msgBuffer 0 pos₀))
  let pos₁ ← readPos pos 1
  let filename ← readString msgBuffer (pos₀ + 1) (pos₁ - pos₀ - 1)
  return (requestType, filename)

/-- `HandleClient`. -/
def handleClientArrays (t : FileTree) (me : PeerID) (first : RecvResult)
    (rest : List RecvResult) : Except ArrayFault Handled :=
  match first with
  | .failed => .ok ⟨t, []⟩
  | .data bytes => do
      let (requestType, filename) ← parseArrays bytes
      if requestType = ERequestType.requestDownloadFile.toInt then
        return ⟨t, (sendFile t filename).getD []⟩
      else if requestType = ERequestType.requestPushFile.toInt then
        return ⟨receiveFile t me filename rest, ["st".toList]⟩
      else return ⟨t, []⟩

end P2PFileSharing
