import P2PFileSharing.Guarantees.MessageRound
import P2PFileSharing.Proofs.Independence

/-!
# Messages with different ids do not interfere

The round of a query or of a hit is the same round wherever the entries of its id are the
same, and it leaves the entries of every other id as they are. So two such messages with
different ids, handled one after the other, come to the same in either order: the same
entries in the three maps, and the same broadcasts, relayed hits and requests up to order.
-/

namespace P2PFileSharing

variable {net : Setup} {me : PeerID} {t : Tables}

/-- Two messages are handled one after the other. -/
def HandlesBoth (net : Setup) (me : PeerID) (t : Tables) (first : Str) (firstNow : Int)
    (second : Str) (secondNow : Int) (s : Round) : Prop :=
  ∃ s₁ s₂, Handles net me t first firstNow s₁ ∧ Handles net me s₁.tables second secondNow s₂ ∧
    s = { s₂ with queued := s₁.queued ++ s₂.queued, sent := s₁.sent ++ s₂.sent }

/-- The same entries, and the same items up to order. -/
structure SameOutcome (s s' : Round) : Prop where
  queries : s.tables.queries.entries.Perm s'.tables.queries.entries
  queryHitResult : s.tables.queryHitResult.entries.Perm s'.tables.queryHitResult.entries
  waitQueryhit : s.tables.waitQueryhit.entries.Perm s'.tables.waitQueryhit.entries
  broadcasts : s.queued.Perm s'.queued
  relayed : s.sent.Perm s'.sent
  requests : s.tables.requestQueue.Perm s'.tables.requestQueue

/-! ## Two messages -/

section Both

variable {a b : Str} {nowA nowB : Int} {idA idB : SMessageID} {kindA kindB : MessageKind}

/-- The second message finds its upstream peer where it was. -/
theorem CanHandle.after {s : Round} (hne : (idA == idB) = false)
    (ha : CanHandle net me t a idA kindA) (hb : CanHandle net me t b idB kindB)
    (ht : t.fault = none) (h : Handles net me t a nowA s) :
    CanHandle net me s.tables b idB kindB := by
  have honly := only_of_except hne (h.except ha) ((h.alive ha ht).trans ht.symm)
  have hfind : s.tables.queries.find? idB = t.queries.find? idB := by
    rw [← UnorderedMap.find?_only s.tables.queries, ← UnorderedMap.find?_only t.queries]
    exact congrArg (fun t : Tables => t.queries.find? idB) honly
  refine ⟨hb.command, hb.keyed, hb.fits, hb.parsed, ?_⟩
  have hup := hb.upstream
  cases kindB with
  | flood handler =>
      rw [UpstreamValid] at hup ⊢
      rw [hfind]
      exact hup
  | hit type =>
      rw [UpstreamValid] at hup ⊢
      rw [hfind]
      exact hup

theorem sameOutcome_of_handles {s s' : Round} (ht : t.fault = none)
    (ha : CanHandle net me t a idA kindA) (hb : CanHandle net me t b idB kindB)
    (hne : (idA == idB) = false) (h : HandlesBoth net me t a nowA b nowB s)
    (h' : HandlesBoth net me t b nowB a nowA s') : SameOutcome s s' := by
  obtain ⟨sA, sAB, hA, hAB, rfl⟩ := h
  obtain ⟨sB, sBA, hB, hBA, rfl⟩ := h'
  have hne' : (idB == idA) = false := by
    rw [Bool.eq_false_iff]
    intro heq
    rw [BEq.symm heq] at hne
    cases hne
  have haliveA := hA.alive ha ht
  have haliveB := hB.alive hb ht
  have hbAfter := ha.after hne hb ht hA
  have haAfter := hb.after hne' ha ht hB
  -- each message finds the entries of its id as they were at first
  have hfindB : sA.tables.only idB [] = t.only idB [] :=
    only_of_except hne (hA.except ha) (haliveA.trans ht.symm)
  have hfindA : sB.tables.only idA [] = t.only idA [] :=
    only_of_except hne' (hB.except hb) (haliveB.trans ht.symm)
  obtain ⟨honlyB, hqueuedB, hsentB, requestsB, hreqAB, hreqB⟩ := handles_congr hb hfindB hAB hB
  obtain ⟨honlyA, hqueuedA, hsentA, requestsA, hreqBA, hreqA⟩ := handles_congr ha hfindA hBA hA
  -- and leaves those of the other id as they are
  have hkeepA : sAB.tables.only idA [] = sA.tables.only idA [] :=
    only_of_except hne' (hAB.except hb) ((hAB.alive hbAfter haliveA).trans haliveA.symm)
  have hkeepB : sBA.tables.only idB [] = sB.tables.only idB [] :=
    only_of_except hne (hBA.except ha) ((hBA.alive haAfter haliveB).trans haliveB.symm)
  have hsameA : sAB.tables.only idA [] = sBA.tables.only idA [] := hkeepA.trans honlyA.symm
  have hsameB : sAB.tables.only idB [] = sBA.tables.only idB [] := honlyB.trans hkeepB.symm
  have hothers : (sAB.tables.except idA).except idB = (sBA.tables.except idA).except idB := by
    calc (sAB.tables.except idA).except idB
        = (sAB.tables.except idB).except idA := except_comm _ _ _
      _ = (sA.tables.except idB).except idA := by rw [hAB.except hb]
      _ = (sA.tables.except idA).except idB := except_comm _ _ _
      _ = (t.except idA).except idB := by rw [hA.except ha]
      _ = (t.except idB).except idA := except_comm _ _ _
      _ = (sB.tables.except idB).except idA := by rw [hB.except hb]
      _ = (sB.tables.except idA).except idB := except_comm _ _ _
      _ = (sBA.tables.except idA).except idB := by rw [hBA.except ha]
  refine ⟨?_, ?_, ?_, ?_, ?_, ?_⟩
  · exact UnorderedMap.perm_of_only_only hne (congrArg Tables.queries hsameA)
      (congrArg Tables.queries hsameB) (congrArg Tables.queries hothers)
  · exact UnorderedMap.perm_of_only_only hne (congrArg Tables.queryHitResult hsameA)
      (congrArg Tables.queryHitResult hsameB) (congrArg Tables.queryHitResult hothers)
  · exact UnorderedMap.perm_of_only_only hne (congrArg Tables.waitQueryhit hsameA)
      (congrArg Tables.waitQueryhit hsameB) (congrArg Tables.waitQueryhit hothers)
  · show (sA.queued ++ sAB.queued).Perm (sB.queued ++ sBA.queued)
    rw [hqueuedB, hqueuedA]
    exact List.perm_append_comm
  · show (sA.sent ++ sAB.sent).Perm (sB.sent ++ sBA.sent)
    rw [hsentB, hsentA]
    exact List.perm_append_comm
  · show sAB.tables.requestQueue.Perm sBA.tables.requestQueue
    rw [hreqAB, hreqA, hreqBA, hreqB, List.append_assoc, List.append_assoc]
    exact List.perm_append_comm.append_left _

theorem CanHandle.handlesBoth (hne : (idA == idB) = false) (ht : t.fault = none)
    (ha : CanHandle net me t a idA kindA) (hb : CanHandle net me t b idB kindB) :
    ∃ s, HandlesBoth net me t a nowA b nowB s := by
  obtain ⟨sA, hA, haliveA⟩ : Finishes net me t a nowA := ha.finishes ht
  obtain ⟨sB, hB, -⟩ : Finishes net me sA.tables b nowB :=
    (ha.after hne hb ht hA).finishes haliveA
  exact ⟨_, sA, sB, hA, hB, rfl⟩

/-- Both orders can be run to the end, and come to the same. -/
structure EitherOrder (net : Setup) (me : PeerID) (t : Tables) (a : Str) (nowA : Int) (b : Str)
    (nowB : Int) : Prop where
  first : ∃ s, HandlesBoth net me t a nowA b nowB s
  second : ∃ s, HandlesBoth net me t b nowB a nowA s
  same : ∀ s s', HandlesBoth net me t a nowA b nowB s → HandlesBoth net me t b nowB a nowA s' →
    SameOutcome s s'

/-- Two queries or hits with different ids come to the same in either order. -/
theorem different_ids_commute (ht : t.fault = none) (ha : CanHandle net me t a idA kindA)
    (hb : CanHandle net me t b idB kindB) (hne : (idA == idB) = false) :
    EitherOrder net me t a nowA b nowB where
  first := ha.handlesBoth hne ht hb
  second := hb.handlesBoth (by rw [BEq.comm, hne]) ht ha
  same _ _ h h' := sameOutcome_of_handles ht ha hb hne h h'

end Both

/-- Peer 1 of three in a row has passed on a query of peer 0. -/
def relayedOnce : Tables := (initialTables lineOfThree 1).cacheQuery ⟨0, 7, 0⟩ 0

/-- A query of peer 2. -/
def queryOfTwo : Query := ⟨⟨2, 3, 0⟩, 5, 2, .query theFile.1⟩

/-- The hit of peer 2 for the query of peer 0. -/
def hitForZero : Hit := ⟨.query theFile.1, ⟨0, 7, 0⟩, 5, 2, ['x']⟩

theorem queryOfTwo_valid : (Message.query queryOfTwo).Valid :=
  ⟨⟨by decide, by decide, by decide⟩, by decide, by decide, theFile.2⟩

theorem hitForZero_valid : (Message.hit hitForZero).Valid :=
  ⟨⟨by decide, by decide, by decide⟩, by decide, by decide, by decide, theFile.2⟩

theorem canHandle_queryOfTwo : CanHandle lineOfThree 1 relayedOnce
    (Message.query queryOfTwo).text ⟨2, 3, 0⟩ (.flood .query) where
  command := rfl
  keyed := trivial
  fits := by
    obtain ⟨kind, hkind, hfits⟩ := wellFormed_text queryOfTwo_valid
    obtain rfl : MessageKind.flood .query = kind := Option.some.inj hkind
    exact hfits
  parsed := rfl
  upstream _ := ⟨_, 2, rfl, rfl, by decide⟩

theorem canHandle_hitForZero : CanHandle lineOfThree 1 relayedOnce
    (Message.hit hitForZero).text ⟨0, 7, 0⟩ (.hit .queryHit) where
  command := rfl
  keyed := trivial
  fits := by
    obtain ⟨kind, hkind, hfits⟩ := wellFormed_text hitForZero_valid
    obtain rfl : MessageKind.hit .queryHit = kind := Option.some.inj hkind
    exact hfits
  parsed := rfl
  upstream _ := ⟨0, rfl, by decide⟩

theorem different_ids_commute_relayedOnce : EitherOrder lineOfThree 1 relayedOnce
    (Message.query queryOfTwo).text 0 (Message.hit hitForZero).text 0 :=
  different_ids_commute rfl canHandle_queryOfTwo canHandle_hitForZero rfl

end P2PFileSharing
