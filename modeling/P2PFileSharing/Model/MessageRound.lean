import P2PFileSharing.Model.Network

/-!
# One round of `HandleMessageThread`

The thread has popped a message, whatever text that is, and runs the sections of its
handler one after the other. Nothing else happens at the peer meanwhile, except that the
broadcast thread gives back `m_send_buffer_mutex` if it holds it. The round stops where an
exception escapes or an assertion fails.
-/

namespace P2PFileSharing

/-- Where a round is: the members, the sections that are left, and what was pushed to the
broadcast queue and handed to `send` so far. -/
structure Round where
  tables : Tables
  todo : List Section
  queued : List (Str × PeerID)
  sent : List (PeerID × Str)

inductive RoundLabel
  /-- The next section runs at this time. -/
  | run (now : Int)
  /-- `BroadcastProcessThread` is done sending. -/
  | unlock

/-- A section's outcome put into effect. -/
def Round.commit (s : Round) (rest : List Section) (o : Outcome) : Round where
  tables := o.tables
  todo := o.next ++ rest
  queued := s.queued ++ o.queued
  sent := s.sent ++ o.sent

def roundStep (net : Setup) (me : PeerID) (s : Round) : RoundLabel → Option Round
  | .run now =>
      if s.tables.fault = none then
        match s.todo with
        | [] => none
        | sec :: rest => (exec net me now s.tables sec).map (s.commit rest)
      else none
  | .unlock => some { s with tables := { s.tables with sendBufferMutex := false } }

/-- Before the dispatch. -/
def startRound (t : Tables) (message : Str) : Round where
  tables := t
  todo := [.handle message]
  queued := []
  sent := []

/-- The round of a message in a state of the peer. -/
def messageRound (net : Setup) (me : PeerID) (t : Tables) (message : Str) :
    System Round RoundLabel where
  init s := s = startRound t message
  step s l s' := roundStep net me s l = some s'

end P2PFileSharing
