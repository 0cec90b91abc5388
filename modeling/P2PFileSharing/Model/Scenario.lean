import P2PFileSharing.Model.Network

/-!
# Networks and runs to look at

A network is given by its links and by which peers have a file, a run by the list
of its choices. Both are plain values, so a state a run ends in can be computed
and what holds there decided.
-/

namespace P2PFileSharing

/-- The peers a list of directed links leads to from `p`. -/
def neighboursIn (links : List (PeerID × PeerID)) (p : PeerID) : List PeerID :=
  (links.filter fun l => l.1 = p).map Prod.snd

/-- The file of a network given by its links. -/
def theFile : {f : Str // ValidName f} := ⟨['f'], by decide⟩

/-- A network given by its links: some peers have the file, and all have the same
replication factor. -/
def Setup.ofLinks (peers : List PeerID) (links : List (PeerID × PeerID))
    (holders : List PeerID) (factor : Int) (hpeers : peers.Nodup)
    (hrange : ∀ p ∈ peers, 0 ≤ p ∧ IsInt p) (hlinks : links.Nodup)
    (hsymm : ∀ l ∈ links, l.2 ∈ peers ∧ (l.2, l.1) ∈ links) (hfactor : IsInt factor) :
    Setup where
  peers := peers
  topology := neighboursIn links
  files p := if p ∈ holders then [theFile.1] else []
  replicationFactor _ := factor
  ip _ := ['x']
  ensureQueryhitFile _ := theFile.1
  largeFileName _ := theFile.1
  uninitialised _ _ := ⟨0, 0, 0⟩
  peers_nodup := hpeers
  peers_range := hrange
  topology_nodup p := by
    refine List.Nodup.map_on ?_ (hlinks.filter _)
    intro a ha b hb hab
    rw [List.mem_filter, decide_eq_true_eq] at ha hb
    exact Prod.ext (ha.2.trans hb.2.symm) hab
  topology_peers p q hq := by
    obtain ⟨l, hl, rfl⟩ := List.mem_map.mp hq
    exact (hsymm l (List.mem_filter.mp hl).1).1
  topology_symm p q hq := by
    obtain ⟨l, hl, rfl⟩ := List.mem_map.mp hq
    rw [List.mem_filter, decide_eq_true_eq] at hl
    refine List.mem_map.mpr ⟨(l.2, l.1), List.mem_filter.mpr ⟨(hsymm l hl.1).2, ?_⟩, hl.2⟩
    exact decide_eq_true rfl
  files_valid p f hf := by
    split at hf
    · rw [List.mem_singleton.mp hf]
      exact theFile.2
    · cases hf
  factor_range _ := hfactor
  ip_valid _ := by decide
  ensure_valid _ := theFile.2
  large_valid _ := theFile.2

/-- A thread's next `n` sections, at one time. -/
def Label.turns (p : PeerID) (th : Thread) (now : Int) (n : Nat) : List Label :=
  List.replicate n (.run p th now)

/-- A command and its first `n` sections. -/
def Label.commandRun (p : PeerID) (cmd : Command) (n : Nat) : List Label :=
  .command p cmd :: Label.turns p .command 0 n

/-- The broadcast thread sends a message to `n` peers. -/
def Label.broadcastRun (p : PeerID) (n : Nat) : List Label :=
  .takeBroadcast p :: Label.turns p .broadcast 0 (n + 2)

/-- A message arrives at `q` from `p`, and its handler takes `n` sections. -/
def Label.handleRun (p q : PeerID) (n : Nat) : List Label :=
  .deliver p q :: .takeMessage q :: Label.turns q .message 0 n

/-- Where a list of choices ends, if every one of them is possible. -/
def finalState (net : Setup) (ls : List Label) : Network :=
  (runLabels net (initialNetwork net) ls).getD (initialNetwork net)

theorem reachable_finalState (net : Setup) (ls : List Label) :
    Reachable net (finalState net ls) := by
  rw [finalState]
  cases h : runLabels net (initialNetwork net) ls with
  | none => exact .init rfl
  | some s => exact reachable_runLabels (.init rfl) h

/-- Three peers in a row; some have the file, all have one replication factor. -/
def rowOfThree (holders : List PeerID) (factor : Int) (hfactor : IsInt factor) : Setup :=
  .ofLinks [0, 1, 2] [(0, 1), (1, 0), (1, 2), (2, 1)] holders factor (by decide) (by decide)
    (by decide) (by decide) hfactor

/-- A replication factor of one: nothing is replicated. -/
theorem isInt_one : IsInt 1 := by decide

/-- Nobody has the file. -/
def lineOfThree : Setup := rowOfThree [] 1 isInt_one

/-- The far end has the file. -/
def fileAtTheEnd : Setup := rowOfThree [2] 1 isInt_one

/-- A message of peer 0 goes down the row, and peer 2 handles it. -/
def Label.downTheRow : List Label :=
  Label.broadcastRun 0 1 ++ Label.handleRun 0 1 4 ++ Label.broadcastRun 1 1 ++
    Label.handleRun 1 2 4

/-- A hit of peer 2 goes up the row, and peer 0 handles it. -/
def Label.upTheRow : List Label := Label.handleRun 2 1 2 ++ Label.handleRun 1 0 3

/-- Peer 0 of three in a row queried, and the query reached peer 2. -/
def queriedAlongLine : Network :=
  finalState lineOfThree (Label.commandRun 0 (.query theFile) 3 ++ Label.downTheRow)

/-- Peer 0 queried a file that peer 2 has, and the hit came home. -/
def hitAtHome : Network :=
  finalState fileAtTheEnd
    (Label.commandRun 0 (.query theFile) 3 ++ Label.downTheRow ++ Label.upTheRow)

/-- The middle of the row has the file. -/
def fileNextDoor : Setup := rowOfThree [1] 1 isInt_one

/-- Every peer's startup replication, with nothing to do at a factor of 1. -/
def Label.startUps : List Label := [.run 0 .replicate 0, .run 1 .replicate 0, .run 2 .replicate 0]

/-- A message of peer 0 reaches its neighbour, which answers, and the hit is handled
in `n` sections. -/
def Label.nextDoor (n : Nat) : List Label :=
  Label.broadcastRun 0 1 ++ Label.handleRun 0 1 4 ++ Label.handleRun 1 0 n

/-- Peer 0 obtains a file; the hit is handled before `SetWaitQueryHit`, the last
section of `ObtainFile`. -/
def lostObtain : Network :=
  finalState fileNextDoor
    (Label.startUps ++ Label.commandRun 0 (.obtain theFile) 3 ++ Label.nextDoor 3 ++
      [.run 0 .command 0])

/-- Likewise, with the hit handled after it. -/
def keptObtain : Network :=
  finalState fileNextDoor (Label.commandRun 0 (.obtain theFile) 4 ++ Label.nextDoor 4)

/-- A second file. -/
def otherFile : {f : Str // ValidName f} := ⟨['g'], by decide⟩

/-- Peer 0 has one file and its neighbour the other; nobody asks for copies. -/
def twoFiles : Setup :=
  { lineOfThree with
    files := fun p => if p = 0 then [theFile.1] else if p = 1 then [otherFile.1] else []
    files_valid := by
      intro p f hf
      split at hf
      · rw [List.mem_singleton.mp hf]
        exact theFile.2
      · split at hf
        · rw [List.mem_singleton.mp hf]
          exact otherFile.2
        · cases hf }

/-- Peer 0 queries its neighbour's file, then replicates its own; then the hit
comes home. -/
def staleReplicate : Network :=
  finalState twoFiles
    (Label.commandRun 0 (.query otherFile) 3 ++ Label.commandRun 0 (.replicate theFile) 2 ++
      Label.nextDoor 4)

/-- Peer 0 of three in a row has the file, and everybody asks for two copies. -/
def twoCopies : Setup := rowOfThree [0] 3 (by decide)

/-- Peer 0 replicates its file at startup; both hits are handled afterwards, the
nearer peer's first. -/
def oneCopy : Network :=
  finalState twoCopies
    (Label.turns 0 .replicate 0 5 ++ Label.broadcastRun 0 1 ++ Label.handleRun 0 1 5 ++
      Label.broadcastRun 1 1 ++ Label.handleRun 1 2 5 ++ Label.handleRun 1 0 4 ++
      Label.handleRun 2 1 2 ++ Label.handleRun 1 0 3)

/-- Two neighbours have the file, and everybody asks for two copies. -/
def bothReplicate : Setup := rowOfThree [0, 1] 3 (by decide)

/-- Peer 1 has taken its snapshot when peer 0's inv_query arrives; then it goes on. -/
def askedFirst : Network :=
  finalState bothReplicate
    (Label.turns 1 .replicate 0 1 ++ Label.turns 0 .replicate 0 4 ++ Label.broadcastRun 0 1 ++
      Label.handleRun 0 1 3 ++ Label.turns 1 .replicate 0 2)

/-- Peer 0 has one file and its neighbour both, and everybody asks for two copies. -/
def sharedAndOwn : Setup :=
  { rowOfThree [] 3 (by decide) with
    files := fun p =>
      if p = 0 then [theFile.1] else if p = 1 then [theFile.1, otherFile.1] else []
    files_valid := by
      intro p f hf
      split at hf
      · rw [List.mem_singleton.mp hf]
        exact theFile.2
      · split at hf
        · rcases List.mem_pair.mp hf with rfl | rfl
          · exact theFile.2
          · exact otherFile.2
        · cases hf }

/-- Peer 1 takes part in peer 0's replication; then it takes its snapshot and is about to
flood what is left of it. -/
def Label.askedBefore : List Label :=
  Label.turns 0 .replicate 0 4 ++ Label.broadcastRun 0 1 ++ Label.handleRun 0 1 3 ++
    Label.turns 1 .replicate 0 3

/-- Peer 1 in the middle of three others, of which peer 3 has the file. -/
def hub : Setup :=
  .ofLinks [0, 1, 2, 3] [(0, 1), (1, 0), (1, 2), (2, 1), (1, 3), (3, 1)] [3] 1 (by decide)
    (by decide) (by decide) (by decide) isInt_one

/-- Peer 2 queries the file, peer 3 answers, and peer 1 is about to relay the hit. -/
def Label.hitInHand : List Label :=
  Label.commandRun 2 (.query theFile) 3 ++ Label.broadcastRun 2 1 ++ Label.handleRun 2 1 4 ++
    Label.broadcastRun 1 2 ++ Label.handleRun 1 3 4 ++ Label.handleRun 3 1 1

def hitInHand : Network := finalState hub Label.hitInHand

/-- Before it does, peer 1 makes so many queries of its own that `m_queries` is
cleaned up, more than two minutes later. -/
def Label.evictedMeanwhile : List Label :=
  Label.hitInHand ++ ((List.replicate 120000 (Label.commandRun 1 (.query theFile) 3)).flatten ++
    [.wake 1 1000000, .run 1 .mantain 1000000])

def evictedMeanwhile : Network := finalState hub Label.evictedMeanwhile

end P2PFileSharing
