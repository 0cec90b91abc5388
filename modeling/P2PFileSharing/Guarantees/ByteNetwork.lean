import P2PFileSharing.Guarantees.Rest
import P2PFileSharing.Proofs.ByteNetwork

/-!
# The network may be read as one of messages

The peers write bytes and read bytes, a frame at a time as far as they can and in pieces as far
as they cannot, and the threads of all peers take turns in between. What comes of it is exactly
what comes of handing over whole messages: no run of the bytes leads anywhere else, and none is
lost. So whatever holds of the network of messages in all its runs holds of the bytes. And the
bytes themselves run out: an undisturbed network comes to rest with nothing on any link.
-/

namespace P2PFileSharing

/-- The network of bytes when nobody types a command and the cleaner sleeps. -/
def undisturbedBytes (net : Setup) : System ByteNetwork ByteLabel :=
  (byteNetwork net).restrict fun _ l => l.isUndisturbed = true

/-- What the network of bytes comes to. -/
structure ByteNetwork.Settled (net : Setup) (b : ByteNetwork) : Prop where
  messages : b.messages.Settled net
  /-- No thread is in a loop over partial writes. -/
  sending : ∀ p th, b.sending p th = []
  /-- No byte is left anywhere. -/
  wires : ∀ p q, (b.wires p q).stream = [] ∧ (b.wires p q).buffer = [] ∧
    (b.wires p q).handling = none

section Bytes

variable {net : Setup} {b : ByteNetwork}

/-- **Bytes and messages have the same runs**: the states that the network of messages reaches
are the states of the network of bytes, with the bytes on its links read as messages. -/
theorem reachable_messages_iff (hfits : net.Fits) (s : Network) :
    (fittingNetwork net).Reachable s ↔
      ∃ b, (byteNetwork net).Reachable b ∧ b.messages = s := by
  constructor
  · intro hs
    have hsim : ∃ b, (byteNetwork net).Reachable b ∧ b.Quiet ∧ b.messages = s := by
      refine System.Reachable.simulate (U := byteNetwork net)
        (R := fun s b => b.Quiet ∧ b.messages = s) ?_ ?_ hs
      · intro s hs
        subst hs
        exact ⟨initialByteNetwork net, rfl,
          ⟨fun _ _ => rfl, fun _ _ => rfl, fun _ _ => rfl⟩, messages_initial net⟩
      · intro s b l s' _ hb hR hl
        obtain ⟨hquiet, rfl⟩ := hR
        exact exists_byte_steps hfits hb hquiet hl.1 hl.2
    obtain ⟨b, hb, -, hmessages⟩ := hsim
    exact ⟨b, hb, hmessages⟩
  · intro h
    obtain ⟨b, hb, rfl⟩ := h
    exact (byteReachable_ok hfits hb).2

theorem fits_fileAtTheEnd : fileAtTheEnd.Fits where
  files p f hf := by
    have hf : f ∈ if p ∈ [2] then [theFile.1] else [] := hf
    split at hf
    · rw [List.mem_singleton.mp hf]
      decide
    · cases hf
  ip _ := show FitsName ['x'] by decide
  ensure _ := show FitsName theFile.1 by decide
  large _ := show FitsName theFile.1 by decide

/-- Peer 0's query is on its way to peer 1. -/
def querySent : Network :=
  (System.runSteps (System.guarded (step fileAtTheEnd) fun _ l => l.Fits)
    (initialNetwork fileAtTheEnd)
    (Label.commandRun 0 (.query theFile) 3 ++ Label.broadcastRun 0 1)).getD
      (initialNetwork fileAtTheEnd)

theorem reachable_messages_iff_querySent :
    querySent.sockets 0 1 ≠ [] ∧
      ∃ b, (byteNetwork fileAtTheEnd).Reachable b ∧ b.messages = querySent := by
  refine ⟨by decide +kernel, (reachable_messages_iff fits_fileAtTheEnd querySent).mp ?_⟩
  refine System.Reachable.getD_runSteps (.init rfl) ?_
  intro l _ s s' hstep
  exact System.guarded_eq_some hstep

/-- Without a message under way there is no byte anywhere. -/
theorem noBytes_of_sockets (hok : b.Ok) (h : ∀ p q, b.messages.sockets p q = []) :
    (∀ p th, b.sending p th = []) ∧ ∀ p q, (b.wires p q).stream = [] ∧
      (b.wires p q).buffer = [] ∧ (b.wires p q).handling = none := by
  refine ⟨fun p th => ?_, fun p q => ?_⟩
  · refine List.eq_nil_iff_forall_not_mem.mpr fun tx hmem => ?_
    exact sockets_of_sending hok hmem (h p tx.target)
  · have hwire : (b.wires p q).buffer ++ (b.wires p q).stream = [] := by
      by_contra hne
      exact sockets_of_wire hok hne (h p q)
    obtain ⟨hbuffer, hstream⟩ := List.append_eq_nil_iff.mp hwire
    have hhandling := (List.append_eq_nil_iff.mp (h p q)).1
    refine ⟨hstream, hbuffer, ?_⟩
    cases hsome : (b.wires p q).handling with
    | none => rfl
    | some message =>
        rw [hsome] at hhandling
        cases hhandling

/-- **The bytes come to rest.** From every state in which nothing was removed, as long as nobody
types a command and the cleaner sleeps, however `send` and `recv` cut the frames and in whatever
order everyone takes turns: the network comes to a state where nothing is left to do, every
answer is where it belongs and no byte is left on any link, or some peer has used up its message
numbers. -/
theorem bytes_come_to_rest (hfits : net.Fits) (hb : (byteNetwork net).Reachable b)
    (hc : b.messages.NothingRemoved) :
    (undisturbedBytes net).Inevitable (fun b' => (byteNetwork net).Steps b b' ∧
      (b'.Settled net ∨ b'.messages.OutOfNumbers)) b := by
  have hrest : (undisturbed net).Inevitable (fun s => s.AtRest ∨ s.OutOfNumbers) b.messages :=
    (inevitable_atRest (System.Reachable.of_restrict (byteReachable_ok hfits hb).2) hc).imp
      fun _ h => h.2
  refine (System.Inevitable.simulate (T := undisturbedBytes net)
    (R := fun b' s => ((byteNetwork net).Reachable b' ∧ (byteNetwork net).Steps b b' ∧
      s.NothingRemoved) ∧ b'.messages = s)
    (ByteNetwork.toGo net) ?_ ?_ hrest b ⟨⟨hb, .refl b, hc⟩, rfl⟩).imp ?_
  · intro b' s hR hnot
    obtain ⟨⟨hb', -, hc'⟩, rfl⟩ := hR
    obtain ⟨l, b'', hl, hstep⟩ := byteNetwork_goes hfits hb' hc' (fun h => hnot (.inr h))
      (fun h => hnot (.inl h))
    exact ⟨l, b'', hl, hstep⟩
  · intro b' s l b'' hR _ hstep
    obtain ⟨⟨hb', hsteps, hc'⟩, rfl⟩ := hR
    obtain ⟨hl, hstep⟩ := hstep
    obtain ⟨hok, hs⟩ := byteReachable_ok hfits hb'
    obtain ⟨-, hsame, hsim⟩ := byteStep_simulates hfits hok hs hstep.2
    cases hk : l.label? with
    | none =>
        have hsame := hsame hk
        exact .inl ⟨⟨⟨.step l hb' hstep, .tail l hsteps hstep, hc'⟩, hsame⟩,
          toGo_of_byteStep hfits hb' hc' hk hstep.2⟩
    | some k =>
        have hundisturbed : k.isUndisturbed = true := by
          rw [ByteLabel.isUndisturbed, hk] at hl
          exact hl
        have hstep' := hsim k hk
        refine .inr ⟨k, b''.messages, ⟨hundisturbed, hstep'⟩,
          ⟨.step l hb' hstep, .tail l hsteps hstep, ?_⟩, rfl⟩
        exact nothingRemoved_step (System.Reachable.of_restrict hs) hc' hundisturbed hstep'
  · intro b' h
    obtain ⟨s, ⟨⟨hb', hsteps, hc'⟩, rfl⟩, hrest | hnumbers⟩ := h
    · obtain ⟨hok, hs⟩ := byteReachable_ok hfits hb'
      obtain ⟨hsending, hwires⟩ := noBytes_of_sockets hok hrest.sockets
      exact ⟨hsteps, .inl ⟨settled_of_atRest (System.Reachable.of_restrict hs) hc' hrest,
        hsending, hwires⟩⟩
    · exact ⟨hsteps, .inr hnumbers⟩

/-- Peer 0 of three in a row sends a query. Of its frame, 500 bytes are out and 300 are in the
buffer of peer 1. -/
def frameUnderWay : ByteNetwork :=
  (System.runSteps (byteStep fileAtTheEnd) (initialByteNetwork fileAtTheEnd)
    [.start (.command 0 (.query theFile)), .run 0 .command 0, .run 0 .command 0,
      .run 0 .command 0, .start (.takeBroadcast 0), .run 0 .broadcast 0, .run 0 .broadcast 0,
      .send 0 .broadcast 500, .recv 0 1 300]).getD (initialByteNetwork fileAtTheEnd)

theorem reachable_frameUnderWay : (byteNetwork fileAtTheEnd).Reachable frameUnderWay := by
  refine System.Reachable.getD_runSteps (.init rfl) ?_
  intro l hl s s' hstep
  refine ⟨?_, hstep⟩
  fin_cases hl <;> trivial

theorem bytes_come_to_rest_frameUnderWay :
    (undisturbedBytes fileAtTheEnd).Inevitable
      (fun b' => (byteNetwork fileAtTheEnd).Steps frameUnderWay b' ∧
        (b'.Settled fileAtTheEnd ∨ b'.messages.OutOfNumbers)) frameUnderWay :=
  bytes_come_to_rest fits_fileAtTheEnd reachable_frameUnderWay (by decide +kernel)

end Bytes

end P2PFileSharing
