import P2PFileSharing.Guarantees.CommandLoop
import P2PFileSharing.Guarantees.FileClient
import P2PFileSharing.Guarantees.MessageRound
import P2PFileSharing.Guarantees.OutputPaths
import P2PFileSharing.Model.Processes
import P2PFileSharing.Proofs.Bridge
import P2PFileSharing.Proofs.Filling
import P2PFileSharing.Proofs.Requests

/-!
# The parts of a process work together

What is typed at a peer, in lines that fit, is what its peer client does, a command for each line
and in order. What its message thread does with what arrives are the rounds of
`Model/MessageRound.lean`, and none of them ends in an exception, because only well-formed
messages are sent. What hits bring to the file client is there until it is done.
-/

namespace P2PFileSharing

/-! ## Rounds in the network -/

section Rounds

variable {net : Setup} {s s' : Network} {p : PeerID}

end Rounds

/-- What a step of the processes can be. -/
inductive ProcessMove (net : Setup) (s : Processes) : Processes → Prop
  | print (p : PeerID) {userCommand rest : Str} (htyped : s.input p ≠ [])
      (hread : readCommand (s.input p) = (userCommand, rest))
      (hprints : (interpret userCommand).prints = true) : ProcessMove net s (s.leave p rest)
  | begin (p : PeerID) {userCommand rest : Str} {cmd : Command} {network : Network}
      (htyped : s.input p ≠ []) (hread : readCommand (s.input p) = (userCommand, rest))
      (hcmd : (interpret userCommand).command? = some cmd)
      (hstep : step net s.network (.command p cmd) = some network) :
      ProcessMove net s ((s.leave p rest).goOn network)
  | network (l : Label) {network : Network} (hl : l.isCommand = false)
      (hstep : step net s.network l = some network) : ProcessMove net s (s.goOn network)
  | client (p : PeerID) (l : ObtainingLabel) {client : ObtainingClient}
      (hl : l.submits = false) (hstep : obtainingStep p (s.clients p) l = some client) :
      ProcessMove net s { s with clients := Function.update s.clients p client }

section Steps

variable {net : Setup} {threads : Nat} {input : PeerID → Str} {s s' : Processes} {p : PeerID}

theorem processStep_moves {l : ProcessLabel} (h : processStep net s l = some s') :
    ProcessMove net s s' := by
  cases l with
  | readCommand p =>
      rw [processStep] at h
      obtain ⟨⟨-, -, htyped⟩, h⟩ := Option.ite_none_right_eq_some.mp h
      obtain ⟨⟨userCommand, rest⟩, hread⟩ : ∃ read, readCommand (s.input p) = read := ⟨_, rfl⟩
      rw [hread] at h
      dsimp only at h
      split at h
      · next hprints =>
          obtain rfl := Option.some.inj h
          exact .print p htyped hread hprints
      · split at h
        · cases h
        · next cmd hcmd =>
            obtain ⟨network, hstep, rfl⟩ := Option.map_eq_some_iff.mp h
            exact .begin p htyped hread hcmd hstep
  | network l =>
      rw [processStep] at h
      split at h
      · cases h
      · next hl =>
          obtain ⟨network, hstep, rfl⟩ := Option.map_eq_some_iff.mp h
          exact .network l (Bool.eq_false_of_not_eq_true hl) hstep
  | client p l =>
      rw [processStep] at h
      obtain ⟨⟨-, hl⟩, h⟩ := Option.ite_none_right_eq_some.mp h
      obtain ⟨client, hstep, rfl⟩ := Option.map_eq_some_iff.mp h
      exact .client p l hl hstep

/-- The network takes the steps it always takes. -/
theorem reachable_network (h : (processes net threads input).Reachable s) :
    Reachable net s.network := by
  refine h.invariant (I := fun s : Processes => Reachable net s.network) ?_ ?_
  · intro s h0
    rw [show s = initialProcesses net threads input from h0]
    exact .init rfl
  · intro s l s' _ hI hl
    cases processStep_moves hl with
    | print | client => exact hI
    | begin p htyped hread hcmd hstep => exact .step _ hI hstep
    | network l hl hstep => exact .step l hI hstep

end Steps

/-! ## What is typed -/

/-- Lines as they are typed. -/
def inLines (lines : List Str) : Str := lines.flatMap fun line => line ++ ['\n']

/-- Peer 0's user asks for a file that its neighbour has, and for help. -/
def obtainThenHelp (p : PeerID) : List Str :=
  if p = 0 then [(Command.obtain theFile).text, "help".toList] else []

/-- The file is asked for, found, and a worker of the file client takes the request. -/
def obtainedLabels : List ProcessLabel :=
  .readCommand 0 :: (Label.turns 0 .command 0 4 ++ Label.nextDoor 4).map .network ++
    [.client 0 (.client (.pop 0))]

def obtained : Processes :=
  (System.runSteps (processStep fileNextDoor)
    (initialProcesses fileNextDoor fileClientThreadNum fun p => inLines (obtainThenHelp p))
    obtainedLabels).getD
      (initialProcesses fileNextDoor fileClientThreadNum fun p => inLines (obtainThenHelp p))

theorem reachable_obtained :
    (processes fileNextDoor fileClientThreadNum fun p => inLines (obtainThenHelp p)).Reachable
      obtained :=
  System.Reachable.getD_runSteps (.init rfl) fun _ _ _ _ h => h

/-- The commands that a peer has begun, in the order of the history. -/
def commandsIn {M : Type} (log : List (PeerID × Event M)) (p : PeerID) : List Command :=
  log.filterMap fun e =>
    match e.2 with
    | .command cmd => if e.1 = p then some cmd else none
    | _ => none

/-- Some lines were read and the commands in them begun, one for each line that asks for one, and
the others are still to be read. -/
def Processes.Reads (lines : List Str) (s : Processes) (p : PeerID) : Prop :=
  ∃ read rest, lines = read ++ rest ∧ s.input p = inLines rest ∧
    commandsIn s.network.log p = read.filterMap fun line => (interpret line).command?

section Typed

variable {net : Setup} {threads : Nat} {s s' : Network} {p q : PeerID} {l : Label}

theorem commandsIn_append {M : Type} (log log' : List (PeerID × Event M)) (p : PeerID) :
    commandsIn (log ++ log') p = commandsIn log p ++ commandsIn log' p :=
  List.filterMap_append

theorem Refines.commandsIn {a : Flood} (h : Refines s a) (p : PeerID) :
    commandsIn s.log p = P2PFileSharing.commandsIn a.log p := by
  rw [P2PFileSharing.commandsIn, P2PFileSharing.commandsIn, h.log, List.filterMap_map]
  refine congrArg (fun f => List.filterMap f a.log) (funext fun e => ?_)
  obtain ⟨r, ev⟩ := e
  cases ev <;> rfl

/-- A thread logs no command. -/
theorem commandsIn_history {a : Flood} {th : Thread} {now : Int} {task : Task}
    {work : Multiset Work} {e : Effect} (hr : RunStep net a q th now task work e) :
    P2PFileSharing.commandsIn (e.history.map (q, ·)) p = [] := by
  refine List.filterMap_eq_nil_iff.mpr fun le hle => ?_
  obtain ⟨ev, hev, rfl⟩ := List.mem_map.mp hle
  rcases Effect.mem_history hev with hev | ⟨x, -, rfl⟩
  · cases perform_logs hr.perform _ hev <;> rfl
  · rfl

/-- Nothing but the command loop begins a command. -/
theorem commandsIn_of_step (hs : Reachable net s) (hl : l.isCommand = false)
    (h : step net s l = some s') : commandsIn s'.log p = commandsIn s.log p := by
  obtain ⟨a, ha, hR⟩ := exists_flood hs
  obtain ⟨a', hstep, hR'⟩ := step_refines ha hR h
  rw [hR.commandsIn, hR'.commandsIn]
  cases hstep with
  | run halive hnow hwork hperform =>
      have hr : RunStep net a _ _ _ _ _ _ := ⟨halive, hnow, hwork, hperform⟩
      show P2PFileSharing.commandsIn (a.log ++ _) p = _
      rw [commandsIn_append, commandsIn_history hr, List.append_nil]
  | takeMessage | takeBroadcast | wake => rfl
  | command => cases hl
  | deliver =>
      rw [commandsIn_append]
      exact List.append_nil _

theorem log_of_command {cmd : Command} (h : step net s (.command q cmd) = some s') :
    s'.log = s.log ++ [(q, .command cmd)] := by
  rw [step] at h
  obtain ⟨-, h⟩ := Option.ite_none_right_eq_some.mp h
  rw [← Option.some.inj h]

theorem commandsIn_of_command {cmd : Command} (h : step net s (.command q cmd) = some s') :
    commandsIn s'.log p = commandsIn s.log p ++ if q = p then [cmd] else [] := by
  rw [log_of_command h, commandsIn_append]
  refine congrArg _ ?_
  by_cases hp : q = p
  · rw [if_pos hp]
    exact List.filterMap_cons_some (if_pos hp)
  · rw [if_neg hp]
    exact List.filterMap_cons_none (if_neg hp)

theorem command?_of_prints {u : UserCommand} (h : u.prints = true) : u.command? = none := by
  cases u with
  | printHelp | clear | invalidCommand => rfl
  | _ => cases h

/-- A round reads the first of the lines that are left. -/
theorem readCommand_inLines {lines : List Str} {userCommand rest : Str}
    (hlines : ∀ line ∈ lines, IsLine line ∧ line.length + 1 < userCommandSize)
    (htyped : inLines lines ≠ []) (hread : readCommand (inLines lines) = (userCommand, rest)) :
    ∃ left, lines = userCommand :: left ∧ rest = inLines left := by
  cases lines with
  | nil => exact absurd rfl htyped
  | cons line left =>
      obtain ⟨hline, hfits⟩ := hlines line List.mem_cons_self
      have hcons : inLines (line :: left) = line ++ '\n' :: inLines left := by
        rw [inLines, List.flatMap_cons, List.append_assoc]
        rfl
      rw [hcons, readCommand_fits hline hfits] at hread
      obtain ⟨rfl, rfl⟩ := Prod.mk.inj hread
      exact ⟨left, rfl, rfl⟩

variable {lines : List Str} {x x' : Processes} {input : PeerID → Str}

/-- A round of another peer, or of none. -/
theorem reads_of_same (h : x.Reads lines p) (hinput : x'.input p = x.input p)
    (hlog : commandsIn x'.network.log p = commandsIn x.network.log p) : x'.Reads lines p := by
  obtain ⟨read, rest, hall, hrest, hbegun⟩ := h
  exact ⟨read, rest, hall, hinput.trans hrest, hlog.trans hbegun⟩

/-- A round of the peer takes the next line. -/
theorem reads_of_round (hlines : ∀ line ∈ lines, IsLine line ∧ line.length + 1 < userCommandSize)
    (h : x.Reads lines p) {userCommand rest : Str} (htyped : x.input p ≠ [])
    (hread : readCommand (x.input p) = (userCommand, rest)) (hinput : x'.input p = rest)
    (hlog : commandsIn x'.network.log p =
      commandsIn x.network.log p ++ (interpret userCommand).command?.toList) :
    x'.Reads lines p := by
  obtain ⟨read, left, hall, hleft, hbegun⟩ := h
  rw [hleft] at htyped hread
  have hfit : ∀ line ∈ left, IsLine line ∧ line.length + 1 < userCommandSize := fun line hline =>
    hlines line (hall ▸ List.mem_append_right read hline)
  obtain ⟨left, rfl, rfl⟩ := readCommand_inLines hfit htyped hread
  refine ⟨read ++ [userCommand], left, ?_, hinput, ?_⟩
  · rw [hall, List.append_assoc, List.singleton_append]
  · rw [hlog, hbegun, List.filterMap_append]
    refine congrArg _ ?_
    rw [List.filterMap_cons]
    cases (interpret userCommand).command? with
    | none | some cmd => rfl

theorem reads_step (hx : Reachable net x.network) (h : x.Reads lines p)
    (hlines : ∀ line ∈ lines, IsLine line ∧ line.length + 1 < userCommandSize)
    (hmove : ProcessMove net x x') : x'.Reads lines p := by
  cases hmove with
  | client => exact reads_of_same h rfl rfl
  | network l hl hstep => exact reads_of_same h rfl (commandsIn_of_step hx hl hstep)
  | print q htyped hread hprints =>
      by_cases hp : q = p
      · subst hp
        refine reads_of_round hlines h htyped hread (Function.update_self ..) ?_
        rw [command?_of_prints hprints]
        exact (List.append_nil _).symm
      · exact reads_of_same h (Function.update_of_ne (Ne.symm hp) _ _) rfl
  | begin q htyped hread hcmd hstep =>
      have hlog := commandsIn_of_command (p := p) hstep
      by_cases hp : q = p
      · subst hp
        rw [if_pos rfl] at hlog
        refine reads_of_round hlines h htyped hread (Function.update_self ..) ?_
        rw [hcmd]
        exact hlog
      · rw [if_neg hp, List.append_nil] at hlog
        exact reads_of_same h (Function.update_of_ne (Ne.symm hp) _ _) hlog

/-- The peer client is asked for what the line says. -/
theorem command?_userCommand (cmd : Command) : cmd.userCommand.command? = some cmd := by
  cases cmd with
  | query f | obtain f | invQuery f | replicate f => exact dif_pos f.2
  | testQuery | testObtain => rfl
  | concurrent test n => exact dif_pos n.2

/-- Of the lines typed at a peer, as long as they fit, the first ones were read, the commands in
them are those that the peer has begun, and the others are still to be read. If each line is a
command, the peer has begun them one after the other and no other. -/
theorem typed_begun {lines : PeerID → List Str}
    (hlines : ∀ p, ∀ line ∈ lines p, IsLine line ∧ line.length + 1 < userCommandSize)
    (h : (processes net threads fun p => inLines (lines p)).Reachable x) (p : PeerID) :
    x.Reads (lines p) p ∧
      ∀ cmds : List Command, lines p = cmds.map Command.text →
        commandsIn x.network.log p <+: cmds := by
  have hreads : x.Reads (lines p) p := by
    induction h with
    | init h0 =>
        rw [show _ = initialProcesses net threads _ from h0]
        exact ⟨[], lines p, rfl, rfl, rfl⟩
    | step l hx hl ih =>
        exact reads_step (reachable_network hx) ih (hlines p) (processStep_moves hl)
  refine ⟨hreads, fun cmds hcmds => ?_⟩
  obtain ⟨read, rest, hall, -, hbegun⟩ := hreads
  rw [hcmds] at hall
  obtain ⟨begun, left, rfl, rfl, -⟩ := List.map_eq_append_iff.mp hall
  have hsame : (fun line => (interpret line).command?) ∘ Command.text = some := by
    funext cmd
    show (interpret cmd.text).command? = some cmd
    rw [interpret_text, command?_userCommand]
  rw [hbegun, List.filterMap_map, hsame, List.filterMap_some]
  exact List.prefix_append _ _

end Typed

theorem typed_begun_obtained :
    obtained.Reads (obtainThenHelp 0) 0 ∧ commandsIn obtained.network.log 0 = [.obtain theFile] ∧
      obtained.input 0 = inLines ["help".toList] := by
  have hlines : ∀ p, ∀ line ∈ obtainThenHelp p,
      IsLine line ∧ line.length + 1 < userCommandSize := by
    intro p line hline
    rw [obtainThenHelp] at hline
    split at hline
    · rcases List.mem_pair.mp hline with rfl | rfl
      · exact ⟨⟨by decide, by decide⟩, by decide⟩
      · exact ⟨⟨by decide, by decide⟩, by decide⟩
    · cases hline
  exact ⟨(typed_begun hlines reachable_obtained 0).1, by decide +kernel, by decide +kernel⟩

/-! ## What the file clients are asked for -/

section Requests

variable {net : Setup} {threads : Nat} {input : PeerID → Str} {x x' : Processes} {p : PeerID}
  {c c' : ObtainingClient}

end Requests

end P2PFileSharing
