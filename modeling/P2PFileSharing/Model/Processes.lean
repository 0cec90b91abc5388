import P2PFileSharing.Model.CommandLoop
import P2PFileSharing.Model.Network
import P2PFileSharing.Model.OutputPaths

/-!
# The processes of the peers

What a user types at a peer is read by the command loop of `CPeerClient::Run`, which has one
command carried out after the other. The peers exchange messages as in the network, and what a
peer client asks of its `CPeerFileClient` is carried out by the workers there. A step is a round
of a command loop, a step of the network, or a step of a file client.

What the peer client appends to its request queue in a step of the network, it hands over by
calls of `PushFile` and `ObtainFile`. A process in which an exception escaped takes no steps.
-/

namespace P2PFileSharing

/-- The command that a round of the loop begins, if it is one that the peer client acts on. -/
def UserCommand.command? : UserCommand → Option Command
  | .sendQuery filename => if h : ValidName filename then some (.query ⟨filename, h⟩) else none
  | .obtainFile filename => if h : ValidName filename then some (.obtain ⟨filename, h⟩) else none
  | .sendInvQuery filename =>
      if h : ValidName filename then some (.invQuery ⟨filename, h⟩) else none
  | .replicateFile filename =>
      if h : ValidName filename then some (.replicate ⟨filename, h⟩) else none
  | .sendTestQuery => some .testQuery
  | .sendTestObtain => some .testObtain
  | .concurrent test n => if h : IsInt n then some (.concurrent test ⟨n, h⟩) else none
  | .printHelp | .clear | .invalidCommand => none

/-- A round that prints something and does nothing else. -/
def UserCommand.prints : UserCommand → Bool
  | .printHelp | .clear | .invalidCommand => true
  | _ => false

/-- The network, what was typed at each peer and not read yet, and the file clients. -/
structure Processes where
  network : Network
  input : PeerID → Str
  clients : PeerID → ObtainingClient

inductive ProcessLabel
  /-- A round of the command loop of a peer. -/
  | readCommand (p : PeerID)
  | network (l : Label)
  | client (p : PeerID) (l : ObtainingLabel)

/-- Commands are read, not made up. -/
def Label.isCommand : Label → Bool
  | .command _ _ => true
  | _ => false

/-- A call from outside the file client. -/
def ObtainingLabel.submits : ObtainingLabel → Bool
  | .client (.pushFile ..) | .client (.obtainFile ..) => true
  | _ => false

/-- `PushFile` and `ObtainFile` are called for these requests. -/
def ObtainingClient.receive (s : ObtainingClient) (reqs : List SClientRequest) :
    ObtainingClient :=
  { s with
    client := (System.runSteps fileClientStep s.client (reqs.map submitLabel)).getD s.client }

/-- The requests that a peer client appended to its queue. -/
def newRequests (before after : Network) (p : PeerID) : List SClientRequest :=
  (after.peers p).tables.requestQueue.drop (before.peers p).tables.requestQueue.length

/-- The network took a step. -/
def Processes.goOn (s : Processes) (network : Network) : Processes :=
  { s with
    network := network
    clients := fun p => (s.clients p).receive (newRequests s.network network p) }

/-- A round of the loop takes its command from the input. -/
def Processes.leave (s : Processes) (p : PeerID) (rest : Str) : Processes :=
  { s with input := Function.update s.input p rest }

/-- One step. -/
def processStep (net : Setup) (s : Processes) : ProcessLabel → Option Processes
  | .readCommand p =>
      if s.network.alive net p ∧ (s.network.peers p).threads .command = [] ∧ s.input p ≠ [] then
        let (userCommand, rest) := readCommand (s.input p)
        if (interpret userCommand).prints then some (s.leave p rest)
        else
          -- a name that the text format cannot carry is not one of the model's
          match (interpret userCommand).command? with
          | none => none
          | some cmd => (step net s.network (.command p cmd)).map (s.leave p rest).goOn
      else none
  | .network l => if l.isCommand then none else (step net s.network l).map s.goOn
  | .client p l =>
      if s.network.alive net p ∧ l.submits = false then
        (obtainingStep p (s.clients p) l).map fun client =>
          { s with clients := Function.update s.clients p client }
      else none

/-- The processes when their threads start; each file client has so many workers. -/
def initialProcesses (net : Setup) (threads : Nat) (input : PeerID → Str) : Processes where
  network := initialNetwork net
  input := input
  clients _ := initialObtainingClient threads

/-- The processes as a transition system. -/
def processes (net : Setup) (threads : Nat) (input : PeerID → Str) :
    System Processes ProcessLabel where
  init s := s = initialProcesses net threads input
  step s l s' := processStep net s l = some s'

end P2PFileSharing
