import P2PFileSharing.Model.Scenario
import P2PFileSharing.Proofs.Ids

/-!
# What relaying does to the text of a query

Each hop splits the text, patches the fields of the TTL, the sender and, in an
inv_query, the factor, and joins them again. By the codec the text a chain of
relays sends is the text of the value that has been decreased as often, so the
other fields stay as they were created, and the length is bounded by what a
number of each machine type can print.
-/

namespace P2PFileSharing

/-- The messages of the functions that create flooded messages, with what each asks for. -/
inductive Created (net : Setup) (me : PeerID) (id : SMessageID) : Request → Str → Prop
  | query {filename : Str} (hf : ValidName filename) :
      Created net me id (.query filename) (createQueryMessage me id filename)
  | invQuery {filename : Str} (hf : ValidName filename)
      (hfactor : 1 < net.replicationFactor me) :
      Created net me id (.invQuery filename (net.replicationFactor me - 1))
        (createInvQueryMessage net me id filename)
  | test (test : TestCommand) {requirement : Int} (hn : IsInt requirement) :
      Created net me id (test.request requirement) (createTestMessage me id test requirement)

/-- A peer handles a message by the dispatch of its message thread, in whatever states
its sections find, and the relay at the end of the handler queues the second message. -/
inductive Relays (net : Setup) (p : PeerID) (message message' : Str) : Prop
  | intro {now : Int} {handler : Handler} {id : SMessageID} {upstream : PeerID}
      {t₁ t₂ t₃ : Tables} {o₁ o₂ o₃ : Outcome}
      (received : handleMessage p now t₁ message = .ok o₁)
      (new : .cacheQuery handler message id upstream ∈ o₁.next)
      (acted : actOn net p handler t₂ message id upstream = .ok o₂)
      (goesOn : .relayQuery handler message id upstream ∈ o₂.next)
      (relayed : relayQuery p handler t₃ message id upstream = .ok o₃)
      (queued : (message', upstream) ∈ o₃.queued)

/-- The peers that relayed a message one after the other, and what the last one sent. -/
inductive RelayChain (net : Setup) (message : Str) : List PeerID → Str → Prop
  | start : RelayChain net message [] message
  | hop {ps : List PeerID} {p : PeerID} {m m' : Str} (h : RelayChain net message ps m)
      (hr : Relays net p m m') : RelayChain net message (ps ++ [p]) m'

/-- The fields of a message at its `j`-th relay, by peer `p`, against those it was
created with. -/
structure PatchedFields (r : Request) (j : Nat) (p : PeerID) (vec vec' : List Str) : Prop where
  timeToLive : field vec' 4 = .ok (intToString (ttl - j))
  sender : field vec' 5 = .ok (intToString p)
  factor : ∀ f k, r = .invQuery f k → field vec' 7 = .ok (intToString (k - j))
  others : ∀ i, i ≠ 4 → i ≠ 5 → (i = 7 → ∀ f k, r ≠ .invQuery f k) → vec'[i]? = vec[i]?

section Chains

variable {net : Setup} {me p : PeerID} {id : SMessageID} {r : Request} {x : Query}
  {message m : Str} {ps : List PeerID}

theorem Created.valid (h : Created net me id r message) : r.Valid := by
  cases h with
  | query hf => exact hf
  | @invQuery f hf hfactor =>
      have hR := (net.factor_range me).2
      exact ⟨hf, by omega, by omega⟩
  | test test hn => cases test <;> exact hn

theorem Created.text (h : Created net me id r message) :
    message = (Query.text ⟨id, ttl, me, r⟩) := by
  cases h with
  | query => rfl
  | invQuery hf hfactor =>
      rw [createInvQueryMessage, net.wrapInt_factor hfactor]
      rfl
  | test test hn => cases test <;> rfl

theorem Relays.text {m' : Str} (hv : x.Valid) (h : Relays net p x.text m') :
    ∃ y, x.relayed p = some y ∧ m' = y.text := by
  cases h with
  | intro received new acted goesOn relayed queued =>
      rw [handleMessage_query p hv] at received
      injection received with received
      rw [← received] at new
      dsimp only at new
      split at new
      · cases new
      · rw [List.mem_singleton] at new
        injection new with h₁ h₂ h₃ h₄
        subst h₁ h₃ h₄
        rw [relayQuery_text p hv] at relayed
        injection relayed with relayed
        rw [← relayed] at queued
        cases hy : x.relayed p with
        | none =>
            rw [hy] at queued
            cases queued
        | some y =>
            rw [hy] at queued
            rw [List.mem_singleton] at queued
            injection queued with hm
            exact ⟨y, rfl, hm⟩

/-- A peer whose handler gets to the relay of a query that may go on relays its text. -/
theorem relays_text {y : Query} {t : Tables} (hv : x.Valid)
    (hnew : t.isQueryCached x.id = false) (hgo : .relay x ∈ (actOnRequest net p t x).next)
    (hy : x.relayed p = some y) : Relays net p x.text y.text := by
  refine .intro (handleMessage_query p hv 0 t) ?_ (actOn_text net p hv t) ?_
    (relayQuery_text p hv t) ?_
  · dsimp only
    rw [hnew]
    exact List.mem_singleton_self _
  · exact List.mem_map_of_mem hgo
  · rw [hy]
    exact List.mem_singleton_self _

/-- What a chain of relays sends is the text of a valid copy, as many hops out. -/
theorem RelayChain.copy (hv : x.Valid) (hx : x = x.copy 0 x.sender) (hps : ∀ q ∈ ps, IsInt q)
    (h : RelayChain net x.text ps m) :
    ∃ q, m = (x.copy ps.length q).text ∧ (x.copy ps.length q).Valid ∧
      ∀ u, ps.getLast? = some u → q = u := by
  induction h with
  | start =>
      exact ⟨x.sender, by rw [List.length_nil, ← hx], by rw [List.length_nil, ← hx]; exact hv,
        fun u hu => by cases hu⟩
  | @hop ps p m m' hc hr ih =>
      obtain ⟨q, rfl, hq, -⟩ := ih fun u hu => hps u (List.mem_append_left _ hu)
      obtain ⟨y, hy, rfl⟩ := hr.text hq
      have hp : IsInt p := hps p (List.mem_append_right _ List.mem_cons_self)
      have hcopy := (relayed_copy hy).1
      have hlen : (ps ++ [p]).length = ps.length + 1 := by
        rw [List.length_append, List.length_singleton]
      refine ⟨p, ?_, ?_, ?_⟩
      · rw [hlen, ← hcopy]
      · rw [hlen, ← hcopy]
        exact relayed_valid hp hq hy
      · intro u hu
        rw [List.getLast?_concat, Option.some.injEq] at hu
        exact hu

theorem decrease_type (n : Nat) : (Request.decrease^[n] r).type = r.type := by
  rcases decrease_iterate_cases r n with h | ⟨f, k, rfl, h⟩ <;> rw [h]
  rfl

/-- The fields of a copy. -/
theorem patchedFields_copy (n : Nat) (q : PeerID) :
    PatchedFields x.request n q x.fields (x.copy n q).fields := by
  refine ⟨rfl, rfl, ?_, ?_⟩
  · intro f k hr
    rw [Query.fields, Query.copy, hr, decrease_invQuery]
    rfl
  · intro i h4 h5 h7
    have htype : (x.copy n q).request.type = x.request.type := decrease_type n
    rcases Nat.lt_or_ge i 6 with hi | hi
    · rw [Query.fields, Query.fields, htype]
      obtain rfl | rfl | rfl | rfl : i = 0 ∨ i = 1 ∨ i = 2 ∨ i = 3 := by omega
      · rfl
      · rfl
      · rfl
      · rfl
    · have hargs (y : Query) : y.fields[i]? = y.request.args[i - 6]? :=
        List.getElem?_append_right hi
      rw [hargs, hargs]
      show (Request.decrease^[n] x.request).args[i - 6]? = _
      rcases decrease_iterate_cases x.request n with h | ⟨f, k, hk, h⟩
      · rw [h]
      · rw [h, hk]
        have hi7 : i ≠ 7 := fun h => h7 h f k hk
        obtain rfl | hi8 : i = 6 ∨ 8 ≤ i := by omega
        · rfl
        · rw [List.getElem?_eq_none (by show 2 ≤ i - 6; omega),
            List.getElem?_eq_none (by show 2 ≤ i - 6; omega)]

theorem length_requestType (r : Request) : r.type.length ≤ 19 := by
  cases r with
  | query => exact (by decide : peerMsgQuery.length ≤ 19)
  | invQuery => exact (by decide : peerMsgInvQuery.length ≤ 19)
  | conTestQuery => exact (by decide : peerMsgConTestQuery.length ≤ 19)
  | conTestObtain => exact (by decide : peerMsgTestObtain2.length ≤ 19)

/-- A text whose arguments are this short fits a frame. -/
theorem length_text_lt (hv : x.Valid)
    (hargs : (x.request.args.map fun s => s.length + 1).sum ≤ 300) :
    x.text.length < msgBufSize := by
  obtain ⟨⟨hp, hm, ht⟩, httl, hs, -⟩ := hv
  have h₁ := length_intToString_int hp
  have h₂ := length_natToString_counter hm
  have h₃ := length_intToString_int64 ht
  have h₄ := length_intToString_int httl.isInt
  have h₅ := length_intToString_int hs
  have h₀ := length_requestType x.request
  have hle := length_joinFields_le x.fields
  rw [Query.fields, List.map_append, List.sum_append] at hle
  simp only [headFields, List.map_cons, List.map_nil, List.sum_cons, List.sum_nil] at hle
  show (joinFields x.fields).length < 1024
  rw [Query.fields]
  simp only [headFields]
  omega

/-- The arguments of a created message stay short however often it was relayed. -/
theorem Created.length_args (h : Created net me id r message) (n : Nat)
    (hf : ∀ f, r.filename? = some f → f.length ≤ 255)
    (hv : (Request.decrease^[n] r).Valid) :
    ((Request.decrease^[n] r).args.map fun s => s.length + 1).sum ≤ 300 := by
  cases h with
  | @query f =>
      have := hf f rfl
      rw [decrease_query]
      simp only [Request.args, List.map_cons, List.map_nil, List.sum_cons, List.sum_nil]
      omega
  | @invQuery f =>
      have := hf f rfl
      rw [decrease_invQuery] at hv ⊢
      have hk := length_intToString_int hv.2.isInt
      simp only [Request.args, List.map_cons, List.map_nil, List.sum_cons, List.sum_nil]
      omega
  | test test hn =>
      have hk := length_intToString_int hn
      have h2 : (natToString 2).length = 1 := by decide
      have h3 : (natToString 3).length = 1 := by decide
      cases test <;> rw [TestCommand.request, Function.iterate_fixed rfl] <;>
        simp only [Request.args, List.map_cons, List.map_nil, List.sum_cons, List.sum_nil] <;>
        omega

end Chains

/-- However many peers relay a created message, its fields are the created ones but for
the TTL, the sender and the factor, and with an ordinary filename it fits a frame. -/
theorem relaying_preserves {net : Setup} {me : PeerID} {id : SMessageID} {r : Request}
    {message m : Str} {ps : List PeerID} (hme : IsInt me) (hid : id.Valid)
    (hc : Created net me id r message) (hps : ∀ q ∈ ps, IsInt q)
    (h : RelayChain net message ps m) :
    (∀ p, ps.getLast? = some p →
        PatchedFields r ps.length p (splitFields message) (splitFields m)) ∧
      ((∀ f, r.filename? = some f → f.length ≤ 255) → m.length < msgBufSize) := by
  have hr := hc.valid
  have htext := hc.text
  have hv : (Query.mk id ttl me r).Valid := ⟨hid, (by decide : IsCount 5), hme, hr⟩
  have hx : Query.mk id ttl me r = (Query.mk id ttl me r).copy 0 me := by
    simp [Query.copy]
  rw [htext] at h
  obtain ⟨q, rfl, hq, hlast⟩ := h.copy hv hx hps
  refine ⟨fun p hp => ?_, fun hf => ?_⟩
  · rw [htext, splitFields_query hv, splitFields_query hq, ← hlast p hp]
    exact patchedFields_copy (x := Query.mk id ttl me r) ps.length q
  · exact length_text_lt hq (hc.length_args ps.length hf hq.2.2.2)

/-- A query of peer 0 as its neighbour relays it, and as the last peer of the row would. -/
theorem relaying_preserves_lineOfThree :
    (∀ p, [(1 : PeerID), 2].getLast? = some p →
        PatchedFields (.query theFile.1) 2 p
          (splitFields (createQueryMessage 0 ⟨0, 0, 0⟩ theFile.1))
          (splitFields (Query.text ⟨⟨0, 0, 0⟩, 3, 2, .query theFile.1⟩))) ∧
      ((∀ f, Request.filename? (.query theFile.1) = some f → f.length ≤ 255) →
        (Query.text ⟨⟨0, 0, 0⟩, 3, 2, .query theFile.1⟩).length < msgBufSize) := by
  have hid : SMessageID.Valid ⟨0, 0, 0⟩ := ⟨by decide, by decide, by decide⟩
  have hop (p q : PeerID) (n : Int) (hp : IsInt p) (hn : IsCount n ∧ 0 < n - 1) :
      Relays lineOfThree q (Query.text ⟨⟨0, 0, 0⟩, n, p, .query theFile.1⟩)
        (Query.text ⟨⟨0, 0, 0⟩, n - 1, q, .query theFile.1⟩) := by
    refine relays_text (t := initialTables lineOfThree q) ⟨hid, hn.1, hp, theFile.2⟩ rfl ?_ ?_
    · exact List.mem_singleton_self _
    · rw [Query.relayed, if_neg]
      · rfl
      · intro h
        rcases h with h | h
        · cases h
        · exact absurd h (by simpa using hn.2)
  exact relaying_preserves (by decide) hid (.query theFile.2) (by decide)
    (.hop (.hop (.start) (hop 0 1 5 (by decide) (by decide))) (hop 1 2 4 (by decide) (by decide)))

end P2PFileSharing
