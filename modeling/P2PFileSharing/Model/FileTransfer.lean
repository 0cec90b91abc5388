import P2PFileSharing.Lib.FileTree
import P2PFileSharing.Model.PeerClient

/-!
# `CPeerFileServer` and `CPeerFileClient`: one transfer

A transfer is one connection. The client sends a request in a frame of `MSG_BUF_SIZE`
bytes; `HandleClient` parses what its first `recv` returned; and the bytes of a file go
one way or the other until the sender shuts its side down. What `connect`, `send` and
`recv` return is given, and what the two sides make of it is computed, down to the paths
in a peer's directory.
-/

namespace P2PFileSharing

/-- `PEER_FILE_DIR`. -/
def peerFileDir : Str := "./shared_files".toList

/-- `FILE_TRANSFER_PACKET_SIZE`. -/
def fileTransferPacketSize : Nat := 42 * 1024

/-- `PACKET_SPLIT_NUM_REQUEST`. -/
def packetSplitNumRequest : Nat := 3

/-- How often `ExecObtainFile` and `ExecPushFile` try again to connect. -/
def maxTryConnectTimes : Nat := 10

def ERequestType.toInt : ERequestType → Int
  | .requestDownloadFile => 0
  | .requestPushFile => 1

/-- What a call of `recv` returns: an error, or bytes, none of them once the other side has
closed. -/
inductive RecvResult
  | failed
  | data (bytes : Str)
  deriving DecidableEq, Repr

/-! ## Paths -/

/-- Where a peer keeps what it receives. -/
def receiveDir (me : PeerID) : Str :=
  peerFileDir ++ "/received".toList ++ intToString me ++ "/".toList

/-- The file `ReceiveFile` writes. -/
def receivePath (me : PeerID) (filename : Str) : Str := receiveDir me ++ '/' :: filename

/-- The file `HandleObtainResponse` writes. -/
def obtainPath (me : PeerID) (obtainNum : Int) (filename : Str) : Str :=
  receiveDir me ++ intToString obtainNum ++ '_' :: filename

/-- The file `SendFile` and `HandlePushResponse` read. -/
def sharedPath (filename : Str) : Str := peerFileDir ++ '/' :: filename

/-- `opendir`, and `mkdir` if there is nothing: where a file is in the way, neither does
anything. -/
def ensureDir (t : FileTree) (dir : Str) : FileTree :=
  if t.openDir dir = none then t.mkdir dir else t

/-- A new working directory, once `CPeerFileServer::Run` has made the shared one. -/
def newDirectory : FileTree := ensureDir ⟨UnorderedMap.empty⟩ peerFileDir

/-! ## Reading and writing a file -/

/-- What successive calls of `fread` return: full packets, and a last one that is not. -/
def freads (content : Str) : List Str :=
  (List.range (content.length / fileTransferPacketSize + 1)).map fun i =>
    (content.drop (i * fileTransferPacketSize)).take fileTransferPacketSize

/-- `fopen` for reading, and what is read; a directory opens, and reads as an error. -/
def readShared (t : FileTree) (filename : Str) : Option (List Str) :=
  match t.lookup (sharedPath filename) with
  | some (.file content) => some (freads content)
  | some .dir => some [[]]
  | none => none

/-- The loop over `recv` of `ReceiveFile` and `HandleObtainResponse`: what a call returns is
written, until one returns nothing or fails. -/
def writeReceived (p : List (List Char)) (t : FileTree) : List RecvResult → FileTree
  | [] => t
  | .failed :: _ => t
  | .data bytes :: rest => if bytes = [] then t else writeReceived p (t.append p bytes) rest

/-! ## `CPeerFileServer` -/

/-- `ReceiveFile`, without its `close`. -/
def receiveFile (t : FileTree) (me : PeerID) (filename : Str) (results : List RecvResult) :
    FileTree :=
  let t := ensureDir t (receiveDir me)
  match t.openTrunc (receivePath me filename) with
  | none => t
  | some (p, t) => writeReceived p t results

/-- `SendFile`: the packets it hands to `send`, if it can open the file. -/
def sendFile (t : FileTree) (filename : Str) : Option (List Str) := readShared t filename

/-- Where the newlines are in a buffer. -/
def newlines (buffer : Str) : List Nat :=
  (List.range buffer.length).filter fun i => buffer[i]? = some '\n'

/-- An entry of `pos`; reading one that was not assigned is undefined. -/
def assigned (pos : List Nat) (i : Nat) : Except Fault Nat :=
  match pos[i]? with
  | some n => .ok n
  | none => .error .missingField

/-- The request type and the filename `HandleClient` finds in its buffer. -/
def parseRequest (buffer : Str) : Except Fault (Int × Str) := do
  let pos := (newlines buffer).take packetSplitNumRequest
  let pos₀ ← assigned pos 0
  let requestType ← stoi (buffer.take pos₀)
  let pos₁ ← assigned pos 1
  return (requestType, (buffer.drop (pos₀ + 1)).take (pos₁ - pos₀ - 1))

/-- What serving a connection leaves behind, and what it sends. -/
structure Handled where
  tree : FileTree
  sent : List Str

/-- `HandleClient`, from what its own `recv` and those after it return. -/
def handleClient (t : FileTree) (me : PeerID) (first : RecvResult) (rest : List RecvResult) :
    Except Fault Handled :=
  match first with
  | .failed => .ok ⟨t, []⟩
  | .data bytes => do
      let (requestType, filename) ← parseRequest bytes
      if requestType = ERequestType.requestDownloadFile.toInt then
        return ⟨t, (sendFile t filename).getD []⟩
      else if requestType = ERequestType.requestPushFile.toInt then
        -- of "start" two bytes are sent
        return ⟨receiveFile t me filename rest, ["st".toList]⟩
      else return ⟨t, []⟩

/-! ## `CPeerFileClient` -/

/-- `CreateRequestHeader`. -/
def createRequestHeader (reqType : ERequestType) (filename : Str) : Str :=
  intToString reqType.toInt ++ '\n' :: (filename ++ ['\n'])

/-- The buffer that a request is sent in; a header that does not fit is copied past its end,
which is undefined. -/
def requestFrame (reqType : ERequestType) (filename : Str) : Option Str :=
  let header := createRequestHeader reqType filename
  if header.length ≤ msgBufSize then some (pad msgBufSize '\x00' header) else none

/-- What the calls of one request return: which tries to connect succeed, what `send` and the
calls of `recv` return. -/
structure ClientCalls where
  connect : Nat → Bool
  sent : Int
  received : List RecvResult

/-- The loop around `connect`. -/
def ClientCalls.connected (calls : ClientCalls) : Bool :=
  (List.range (maxTryConnectTimes + 1)).any calls.connect

/-- What an obtain leaves behind: the files, `m_obtain_num`, and the request if it was put
back into the queue. -/
structure Obtained where
  tree : FileTree
  obtainNum : Int
  requeued : Option SClientRequest

/-- `HandleObtainResponse`. -/
def handleObtainResponse (t : FileTree) (me : PeerID) (obtainNum : Int) (filename : Str)
    (results : List RecvResult) : Obtained :=
  let t := ensureDir t (receiveDir me)
  match t.openAppend (obtainPath me obtainNum filename) with
  | none => ⟨t, obtainNum + 1, none⟩
  | some (p, t) => ⟨writeReceived p t results, obtainNum + 1, none⟩

/-- `ExecObtainFile`. -/
def execObtainFile (t : FileTree) (me : PeerID) (obtainNum : Int) (filename ip : Str) (port : Int)
    (calls : ClientCalls) : Option Obtained :=
  if calls.connected then
    match requestFrame .requestDownloadFile filename with
    | none => none
    | some _ =>
        if calls.sent ≤ 0 then
          some ⟨t, obtainNum, some ⟨.requestDownloadFile, filename, ip, port⟩⟩
        else some (handleObtainResponse t me obtainNum filename calls.received)
  else some ⟨t, obtainNum, some ⟨.requestDownloadFile, filename, ip, port⟩⟩

end P2PFileSharing
