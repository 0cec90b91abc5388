import P2PFileSharing.Lib.Runs
import P2PFileSharing.Model.FileTransfer

/-!
# The shared directory of a running peer

`LoadFileInfo` records what is in the shared directory, and `UpdateFileInfoPeriodically` has
it do so again when a transfer has set the flag. Meanwhile the workers of the file server
and of the file client receive files, each with a stream and an offset of its own. A step
opens a stream, writes to one or closes one.
-/

namespace P2PFileSharing

/-- A name a directory entry can have. The code sends requests for such names only: a peer
pushes what `HasFile` knows, and obtains what another peer has. -/
def IsEntryName (filename : Str) : Prop := '/' ∉ filename ∧ '\x00' ∉ filename

instance (filename : Str) : Decidable (IsEntryName filename) := inferInstanceAs (Decidable (_ ∧ _))

/-- The loop of `LoadFileInfo` on one entry. -/
def insertFile (files : List Str) (entry : Str × FileNode) : List Str :=
  if entry.2 ≠ .dir ∧ files.contains entry.1 = false then entry.1 :: files else files

/-- `LoadFileInfo`; the process does not survive reading a directory it could not open. -/
def loadFileInfo (t : FileTree) (files : List Str) : Option (FileTree × List Str) :=
  let t := ensureDir t peerFileDir
  match t.openDir peerFileDir with
  | some p => some (t, (t.readDir p).foldl insertFile files)
  | none => none

/-- Which function receives a file: one writes at the offset of its stream, the other at the end
of the file. -/
inductive Receiver
  | receiveFile
  | handleObtainResponse
  deriving DecidableEq, Repr

/-- A file on its way in: where it is written, if it could be opened, and the bytes so far. -/
structure Incoming where
  receiver : Receiver
  filename : Str
  out : Option (List (List Char))
  bytes : Str

/-- The files of a peer, what it knows of them, the transfers under way, and the pushes that
were stored so far, each with the bytes that were pushed. -/
structure SharedFiles where
  tree : FileTree
  files : List Str
  fileInfoDirty : Bool
  obtainNum : Int
  incoming : List Incoming
  stored : List (Str × Str)

inductive SharedFilesLabel
  /-- A worker starts to receive. -/
  | start (receiver : Receiver) (filename : Str)
  /-- A worker writes what its `recv` returned. -/
  | write (i : Nat) (bytes : Str)
  /-- A worker's `recv` returns nothing more. -/
  | finish (i : Nat)
  /-- One round of `UpdateFileInfoPeriodically`. -/
  | refresh
  deriving DecidableEq, Repr

/-- `HasFile`. -/
def SharedFiles.hasFile (s : SharedFiles) (filename : Str) : Bool := s.files.contains filename

/-- A stream that was just opened, if it could be. -/
def SharedFiles.opened (s : SharedFiles) (receiver : Receiver) (filename : Str) (t : FileTree)
    (out : Option (List (List Char) × FileTree)) : SharedFiles :=
  match out with
  | none => { s with tree := t, incoming := s.incoming ++ [⟨receiver, filename, none, []⟩] }
  | some (p, t) =>
      { s with tree := t, incoming := s.incoming ++ [⟨receiver, filename, some p, []⟩] }

/-- One step of the process. -/
def sharedFilesStep (me : PeerID) (s : SharedFiles) : SharedFilesLabel → Option SharedFiles
  | .start receiver filename =>
      if IsEntryName filename then
        let t := ensureDir s.tree (receiveDir me)
        match receiver with
        | .receiveFile =>
            some (s.opened receiver filename t (t.openTrunc (receivePath me filename)))
        | .handleObtainResponse =>
            some ({ s with obtainNum := s.obtainNum + 1 }.opened receiver filename t
              (t.openAppend (obtainPath me s.obtainNum filename)))
      else none
  | .write i bytes =>
      match s.incoming[i]? with
      | none => none
      | some x =>
          let tree :=
            match x.out, x.receiver with
            | none, _ => s.tree
            | some p, .receiveFile => s.tree.writeAt p x.bytes.length bytes
            | some p, .handleObtainResponse => s.tree.append p bytes
          some { s with
            tree := tree
            incoming := s.incoming.set i { x with bytes := x.bytes ++ bytes } }
  | .finish i =>
      match s.incoming[i]? with
      | none => none
      | some x =>
          some { s with
            incoming := s.incoming.eraseIdx i
            stored :=
              if x.receiver = .receiveFile ∧ x.out.isSome then s.stored ++ [(x.filename, x.bytes)]
              else s.stored
            fileInfoDirty := true }
  | .refresh =>
      if s.fileInfoDirty then
        match loadFileInfo s.tree s.files with
        | some (tree, files) => some { s with tree, files, fileInfoDirty := false }
        | none => none
      else some s

/-- A peer after the `LoadFileInfo` of `Run`, in the directory it was started in. -/
def startSharedFiles (t : FileTree) : Option SharedFiles :=
  match loadFileInfo t [] with
  | some (tree, files) => some ⟨tree, files, false, 0, [], []⟩
  | none => none

/-- The process as a transition system. -/
def sharedFiles (me : PeerID) (t : FileTree) : System SharedFiles SharedFilesLabel where
  init s := startSharedFiles t = some s
  step s l s' := sharedFilesStep me s l = some s'

end P2PFileSharing
