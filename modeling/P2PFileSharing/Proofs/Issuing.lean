import P2PFileSharing.Lib.Counting
import P2PFileSharing.Proofs.Ids

/-!
# How ids are issued

Each peer numbers what it issues from 0 on, whichever of its threads does it and by
whichever creator: the number is taken and moved on in one locked section.
-/

namespace P2PFileSharing

section Issuing

variable {net : Setup} {s s' : Flood} {l : Label}

theorem issuedIds_append {M : Type} (log new : List (PeerID × Event M)) :
    issuedIds (log ++ new) = issuedIds log ++ issuedIds new :=
  List.filterMap_append

theorem mem_issuedIds {M : Type} {log : List (PeerID × Event M)} {id : SMessageID} :
    id ∈ issuedIds log ↔ ∃ p m, (p, .issued id m) ∈ log := by
  rw [issuedIds, List.mem_filterMap]
  constructor
  · intro h
    obtain ⟨⟨p, ev⟩, hmem, hev⟩ := h
    cases ev with
    | issued id' m =>
        injection hev with hev
        exact ⟨p, m, hev ▸ hmem⟩
    | _ => cases hev
  · intro h
    obtain ⟨p, m, hmem⟩ := h
    exact ⟨_, hmem, rfl⟩

theorem issuedIds_eq_nil {M : Type} {new : List (PeerID × Event M)}
    (h : ∀ p id m, (p, .issued id m) ∉ new) : issuedIds new = [] := by
  rw [List.eq_nil_iff_forall_not_mem]
  intro id hid
  obtain ⟨p, m, hmem⟩ := mem_issuedIds.mp hid
  exact h p id m hmem

/-- Only a creator logs that something was issued. -/
theorem creates_of_issued {p : PeerID} {now : Int} {t : Tables} {task : Task} {e : Effect}
    {id : SMessageID} {m : Message} (h : perform net p now t task = some e)
    (hev : .issued id m ∈ e.history) : ∃ r w, Creates net p task r w := by
  rcases Effect.mem_history hev with hev | ⟨x, -, hx⟩
  · have hlog := perform_logs h _ hev
    generalize hissued : Event.issued id m = ev at hlog
    cases hlog with
    | @issued task r w hc hlimit => exact ⟨r, w, hc⟩
    | _ => cases hissued
  · cases hx

/-- What a task adds to the ids and to the counter. -/
theorem issuedIds_perform {p : PeerID} {now : Int} {t : Tables} {task : Task} {e : Effect}
    (h : perform net p now t task = some e) :
    (issuedIds (e.history.map (p, ·)) = [t.nextId p now] ∧
        e.tables.msgIdCounter = t.msgIdCounter + 1) ∨
      (issuedIds (e.history.map (p, ·)) = [] ∧ e.tables.msgIdCounter = t.msgIdCounter) := by
  by_cases hc : ∃ r w, Creates net p task r w
  · obtain ⟨r, w, hc⟩ := hc
    obtain ⟨⟨out, htables⟩, hevents⟩ := perform_creates hc h
    refine .inl ⟨?_, by rw [htables]; rfl⟩
    have hsent : issuedIds ((e.sent.map fun x => Event.sent x.1 x.2).map (p, ·)) = [] := by
      refine issuedIds_eq_nil fun q id m hmem => ?_
      simp at hmem
    rw [Effect.history, List.map_append, issuedIds_append, hevents, hsent]
    rfl
  · refine .inr ⟨?_, ?_⟩
    · refine issuedIds_eq_nil fun q id m hmem => ?_
      obtain ⟨ev, hev, heq⟩ := List.mem_map.mp hmem
      have hissued : ev = .issued id m := congrArg Prod.snd heq
      exact hc (creates_of_issued h (hissued ▸ hev))
    · obtain ⟨t', ht', hw⟩ : ∃ t', e.tables = t' ∧ Writes net p now t task t' :=
        ⟨_, rfl, perform_writes h⟩
      rw [ht']
      cases hw with
      | create out hcreates => exact absurd ⟨_, _, hcreates⟩ hc
      | _ => rfl

/-- **A peer numbers the messages it issues in the order it issues them.** -/
theorem reachable_numbered (h : (flood net).Reachable s) :
    Numbered SMessageID.peerId SMessageID.msgId (issuedIds s.log)
      fun p => (s.tables p).msgIdCounter := by
  refine System.Reachable.invariant
    (I := fun s => Numbered SMessageID.peerId SMessageID.msgId (issuedIds s.log)
      fun p => (s.tables p).msgIdCounter) ?_ ?_ h
  · intro s hs
    subst hs
    exact numbered_nil
  · intro s l s' _ ih hl
    have hother : ∀ {new}, s'.log = s.log ++ new → (∀ p id m, (p, .issued id m) ∉ new) →
        s'.tables = s.tables → Numbered SMessageID.peerId SMessageID.msgId (issuedIds s'.log)
          fun p => (s'.tables p).msgIdCounter := by
      intro new hlog hnew htables
      rw [hlog, issuedIds_append, issuedIds_eq_nil hnew, List.append_nil, htables]
      exact ih
    cases hl with
    | @run p th now task rest e halive hnow hwork hperform =>
        have htables : (s.after p th rest e).tables p = e.tables := by simp [Flood.after]
        have hlog : (s.after p th rest e).log = s.log ++ e.history.map (p, ·) := rfl
        have hsame : ∀ q, q ≠ p → ((s.after p th rest e).tables q) = s.tables q := by
          intro q hq
          simp [Flood.after, hq]
        rw [hlog, issuedIds_append]
        rcases issuedIds_perform hperform with ⟨hids, hcounter⟩ | ⟨hids, hcounter⟩
        · rw [hids]
          refine ih.append rfl ?_ fun q hq => by rw [hsame q hq]
          show ((s.after p th rest e).tables p).msgIdCounter = _
          rw [htables, hcounter]
          rfl
        · rw [hids, List.append_nil]
          refine ih.congr fun q => ?_
          by_cases hq : q = p
          · subst hq
            rw [htables, hcounter]
          · rw [hsame q hq]
    | takeMessage | takeBroadcast | wake =>
        exact hother (List.append_nil _).symm (by simp) rfl
    | command | deliver => exact hother rfl (by simp) rfl

end Issuing

end P2PFileSharing
