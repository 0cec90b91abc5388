import P2PFileSharing.Lib.Runs
import P2PFileSharing.Model.PeerClient

/-!
# The network: all peers, their threads and their sockets

Every peer runs the five threads of `CPeerClient` over its own members; the
send threads of a peer write whole messages to one stream per connected peer,
and the receiver appends them in order to its message queue. A step is one
section of one thread, one arrival, or one thread waking up to new work, and a
run is any order of such steps.

A stream carries whole messages here; how a frame of `MSG_BUF_SIZE` bytes is cut
into pieces and put together again is a matter of the link alone. Registration
is over: every peer is connected to all its neighbours. `m_files` never changes,
because no thread runs `UpdateFileInfoPeriodically`.
-/

namespace P2PFileSharing

/-- The threads `Run` starts, and its own loop. -/
inductive Thread
  | command | replicate | message | broadcast | mantain
  deriving DecidableEq, Repr

/-- One peer process. -/
structure Peer where
  tables : Tables
  threads : Thread → List Section
  broadcastQueue : List (Str × PeerID)
  messagesQueue : List Str

/-- The peers, the streams from each peer to each other one, and the history. -/
structure Network where
  peers : PeerID → Peer
  sockets : PeerID → PeerID → List Str
  log : List (PeerID × Event Str)

/-- The choices a run makes. -/
inductive Label
  /-- A thread runs its next section; `now` is what the clock shows. -/
  | run (p : PeerID) (th : Thread) (now : Int)
  /-- The message thread pops its queue. -/
  | takeMessage (p : PeerID)
  /-- The broadcast thread pops its queue. -/
  | takeBroadcast (p : PeerID)
  /-- `Run` reads a command. -/
  | command (p : PeerID) (cmd : Command)
  /-- `MantainQueryMapSize` wakes up. -/
  | wake (p : PeerID) (now : Int)
  /-- The next message on the stream from `p` to `q` arrives. -/
  | deliver (p q : PeerID)

/-- The members of a peer before its threads start. -/
def initialTables (net : Setup) (me : PeerID) : Tables where
  msgIdCounter := 0
  queries := .empty
  queryHitResult := .empty
  waitQueryhit := .empty
  replicateQueryFilename := []
  requestQueue := []
  messageId := net.uninitialised me
  sendBufferMutex := false
  fault := none

def initialPeer (net : Setup) (me : PeerID) : Peer where
  tables := initialTables net me
  threads th :=
    if th = .replicate ∧ me ∈ net.peers then [.startReplicateAllFiles] else []
  broadcastQueue := []
  messagesQueue := []

def initialNetwork (net : Setup) : Network where
  peers := initialPeer net
  sockets _ _ := []
  log := []

/-- The streams after a peer wrote some messages. -/
def send (sockets : PeerID → PeerID → List Str) (p : PeerID) (sent : List (PeerID × Str)) :
    PeerID → PeerID → List Str := fun a b =>
  if a = p then sockets a b ++ (sent.filter fun x => x.1 = b).map Prod.snd else sockets a b

/-- A section's outcome put into effect. -/
def commit (s : Network) (p : PeerID) (th : Thread) (rest : List Section)
    (o : Outcome) : Network where
  peers :=
    Function.update s.peers p
      { tables := o.tables
        threads := Function.update (s.peers p).threads th (o.next ++ rest)
        broadcastQueue := (s.peers p).broadcastQueue ++ o.queued
        messagesQueue := (s.peers p).messagesQueue }
  sockets := send s.sockets p o.sent
  log := s.log ++ (o.events ++ o.sent.map fun x => Event.sent x.1 x.2).map (p, ·)

/-- The peer can take a step: it was started and nothing stopped it. -/
def Network.alive (net : Setup) (s : Network) (p : PeerID) : Prop :=
  p ∈ net.peers ∧ (s.peers p).tables.fault = none

instance (net : Setup) (s : Network) (p : PeerID) : Decidable (s.alive net p) :=
  inferInstanceAs (Decidable (_ ∧ _))

/-- One step, if the choice is possible. -/
def step (net : Setup) (s : Network) : Label → Option Network
  | .run p th now =>
      if s.alive net p ∧ IsInt64 now then
        match (s.peers p).threads th with
        | [] => none
        | sec :: rest => (exec net p now (s.peers p).tables sec).map (commit s p th rest)
      else none
  | .takeMessage p =>
      if s.alive net p ∧ (s.peers p).threads .message = [] then
        match (s.peers p).messagesQueue with
        | [] => none
        | message :: rest =>
            some
              { s with
                peers :=
                  Function.update s.peers p
                    { s.peers p with
                      threads :=
                        Function.update (s.peers p).threads .message [.handle message]
                      messagesQueue := rest } }
      else none
  | .takeBroadcast p =>
      if s.alive net p ∧ (s.peers p).threads .broadcast = [] then
        match (s.peers p).broadcastQueue with
        | [] => none
        | (message, exclude) :: rest =>
            some
              { s with
                peers :=
                  Function.update s.peers p
                    { s.peers p with
                      threads :=
                        Function.update (s.peers p).threads .broadcast
                          [.lockSendBuffer message exclude]
                      broadcastQueue := rest } }
      else none
  | .command p cmd =>
      if s.alive net p ∧ (s.peers p).threads .command = [] then
        some
          { s with
            peers :=
              Function.update s.peers p
                { s.peers p with
                  threads :=
                    Function.update (s.peers p).threads .command (runCommand net p cmd) }
            log := s.log ++ [(p, .command cmd)] }
      else none
  | .wake p now =>
      if s.alive net p ∧ IsInt64 now ∧ (s.peers p).threads .mantain = [] then
        some
          { s with
            peers :=
              Function.update s.peers p
                { s.peers p with
                  threads :=
                    Function.update (s.peers p).threads .mantain
                      (mantainQueryMapSize (s.peers p).tables now) } }
      else none
  | .deliver p q =>
      if s.alive net q then
        match s.sockets p q with
        | [] => none
        | message :: rest =>
            some
              { peers :=
                  Function.update s.peers q
                    { s.peers q with
                      messagesQueue :=
                        (s.peers q).messagesQueue ++ (if message = [] then [] else [message]) }
                sockets := fun a b => if a = p ∧ b = q then rest else s.sockets a b
                log := s.log ++ [(q, .received p message)] }
      else none

/-- What the step of a thread is. -/
theorem step_run_cases {net : Setup} {s s' : Network} {p : PeerID} {th : Thread} {now : Int}
    (h : step net s (.run p th now) = some s') :
    (s.alive net p ∧ IsInt64 now) ∧ ∃ sec rest o, (s.peers p).threads th = sec :: rest ∧
      exec net p now (s.peers p).tables sec = some o ∧ s' = commit s p th rest o := by
  simp only [step] at h
  split at h
  · next hgo =>
      refine ⟨hgo, ?_⟩
      split at h
      · cases h
      · next sec rest hsec =>
          obtain ⟨o, ho, heq⟩ := Option.map_eq_some_iff.mp h
          exact ⟨sec, rest, o, hsec, ho, heq.symm⟩
  · cases h

/-- What the other steps add to the history. -/
theorem step_log_cases {net : Setup} {s s' : Network} {l : Label} (h : step net s l = some s') :
    (∃ p th now, l = .run p th now) ∨ s'.log = s.log ∨
      (∃ p cmd, s'.log = s.log ++ [(p, .command cmd)]) ∨
      ∃ p q message, s'.log = s.log ++ [(q, .received p message)] := by
  cases l with
  | run p th now => exact .inl ⟨p, th, now, rfl⟩
  | takeMessage p | takeBroadcast p =>
      simp only [step] at h
      split at h
      · split at h
        · cases h
        · injection h with h
          exact .inr (.inl (h ▸ rfl))
      · cases h
  | command p cmd =>
      simp only [step] at h
      split at h
      · injection h with h
        exact .inr (.inr (.inl ⟨p, cmd, h ▸ rfl⟩))
      · cases h
  | wake p now =>
      simp only [step] at h
      split at h
      · injection h with h
        exact .inr (.inl (h ▸ rfl))
      · cases h
  | deliver p q =>
      simp only [step] at h
      split at h
      · split at h
        · cases h
        · next message rest _ =>
            injection h with h
            exact .inr (.inr (.inr ⟨p, q, message, h ▸ rfl⟩))
      · cases h

/-- The network as a transition system. -/
def network (net : Setup) : System Network Label where
  init s := s = initialNetwork net
  step s l s' := step net s l = some s'

/-- The states some run of the network ends in. -/
def Reachable (net : Setup) (s : Network) : Prop := (network net).Reachable s

/-- A later state of the same run. -/
def Steps (net : Setup) (s s' : Network) : Prop := (network net).Steps s s'

/-- What a fixed list of choices leads to, as far as each is possible. -/
def runLabels (net : Setup) (s : Network) : List Label → Option Network
  | [] => some s
  | l :: rest => (step net s l).bind fun s' => runLabels net s' rest

theorem reachable_runLabels {net : Setup} {ls : List Label} :
    ∀ {s s' : Network}, Reachable net s → runLabels net s ls = some s' → Reachable net s' := by
  induction ls with
  | nil =>
      intro s s' hs h
      rw [runLabels] at h
      injection h with h
      rw [← h]
      exact hs
  | cons l rest ih =>
      intro s s' hs h
      rw [runLabels, Option.bind_eq_some_iff] at h
      obtain ⟨s₁, h₁, h₂⟩ := h
      exact ih (.step l hs h₁) h₂

/-- The events of `MantainQueryMapSize`. -/
def Event.isRemoval {M : Type} : Event M → Bool
  | .removedQuery _ | .removedQueryHits _ | .removedWait _ => true
  | _ => false

/-- A run so far in which `MantainQueryMapSize` removed nothing. -/
def Network.NothingRemoved (s : Network) : Prop := ∀ e ∈ s.log, e.2.isRemoval = false

instance (s : Network) : Decidable s.NothingRemoved :=
  inferInstanceAs (Decidable (∀ e ∈ s.log, e.2.isRemoval = false))

end P2PFileSharing
