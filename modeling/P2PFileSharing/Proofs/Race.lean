import P2PFileSharing.Proofs.Waiting

/-!
# The race between a request and its own hits

Where the first `SetWaitQueryHit` of an id falls among the lookups of its hits
decides everything: a lookup before it finds nothing, the first one after it
finds the entry, and the round of transfers that follows walks over the hits
recorded by then. The lookups are counted from the history, before and after that
point.
-/

namespace P2PFileSharing

/-- The recorded hits of an id that are still to be looked up. -/
def lookUpWeight (p : PeerID) (id : SMessageID) (r : PeerID) : Task → Nat
  | .takeWait h => if r = p ∧ (h.id == id) = true then 1 else 0
  | _ => 0

section Lists

variable {M : Type} {p : PeerID} {id : SMessageID} {l new : List (PeerID × Event M)}

theorem early_add_late (l : List (PeerID × Event M)) (p : PeerID) (id : SMessageID) :
    earlyLookups l p id + lateLookups l p id =
      l.countP fun e => ofPeer p (Event.isLookedUp id) e.1 e.2 := by
  rw [earlyLookups, lateLookups, ← List.countP_append, List.takeWhile_append_dropWhile]

theorem dropWhile_eq_nil (h : l.countP (fun e => ofPeer p (Event.isWaitSet id) e.1 e.2) = 0) :
    (l.dropWhile fun e => !ofPeer p (Event.isWaitSet id) e.1 e.2) = [] := by
  rw [List.dropWhile_eq_nil_iff]
  intro e he
  simpa using List.countP_eq_zero.mp h e he

theorem dropWhile_ne_nil (h : 0 < l.countP (fun e => ofPeer p (Event.isWaitSet id) e.1 e.2)) :
    (l.dropWhile fun e => !ofPeer p (Event.isWaitSet id) e.1 e.2) ≠ [] := by
  intro hnil
  rw [List.dropWhile_eq_nil_iff] at hnil
  obtain ⟨e, he, hP⟩ := List.countP_pos_iff.mp h
  have hnot := hnil e he
  rw [hP] at hnot
  cases hnot

theorem lateLookups_of_unset
    (h : l.countP (fun e => ofPeer p (Event.isWaitSet id) e.1 e.2) = 0) :
    lateLookups l p id = 0 := by
  rw [lateLookups, dropWhile_eq_nil h]
  rfl

theorem lateLookups_le (l : List (PeerID × Event M)) (p : PeerID) (id : SMessageID) :
    lateLookups l p id ≤ l.countP fun e => ofPeer p (Event.isLookedUp id) e.1 e.2 := by
  have := early_add_late l p id
  omega

/-- Once the entry was set, every further lookup is late, and the early ones are
counted. -/
theorem lateLookups_append
    (h : 0 < l.countP (fun e => ofPeer p (Event.isWaitSet id) e.1 e.2)) :
    lateLookups (l ++ new) p id =
      lateLookups l p id + new.countP fun e => ofPeer p (Event.isLookedUp id) e.1 e.2 := by
  rw [lateLookups, List.dropWhile_append, if_neg (by simpa using dropWhile_ne_nil h),
    List.countP_append]
  rfl

theorem earlyLookups_append
    (h : 0 < l.countP (fun e => ofPeer p (Event.isWaitSet id) e.1 e.2)) :
    earlyLookups (l ++ new) p id = earlyLookups l p id := by
  have hsum := early_add_late (l ++ new) p id
  rw [lateLookups_append h, List.countP_append, ← early_add_late l p id] at hsum
  omega

theorem lateLookups_append_unset
    (h : l.countP (fun e => ofPeer p (Event.isWaitSet id) e.1 e.2) = 0) :
    lateLookups (l ++ new) p id = lateLookups new p id := by
  rw [lateLookups, List.dropWhile_append, if_pos (by rw [dropWhile_eq_nil h]; rfl)]
  rfl

end Lists

section Race

variable {net : Setup} {s s' : Flood} {p r : PeerID} {id : SMessageID} {f : Str} {th : Thread}
  {now : Int} {task : Task} {rest : Multiset Work} {e : Effect}

/-- What a step adds to the late lookups. -/
theorem RunStep.late (hr : RunStep net s r th now task rest e) (p : PeerID) (id : SMessageID) :
    lateLookups (s.after r th rest e).log p id = lateLookups s.log p id +
      if 0 < s.count (ofPeer p (Event.isWaitSet id)) then
        e.history.countP (ofPeer p (Event.isLookedUp id) r) else 0 := by
  have hnew : (e.history.map (r, ·)).countP
      (fun e => ofPeer p (Event.isLookedUp id) e.1 e.2) =
        e.history.countP (ofPeer p (Event.isLookedUp id) r) := by
    rw [List.countP_map]
    rfl
  split
  · next hset => rw [Flood.after, lateLookups_append hset, hnew]
  · next hset =>
      have hunset : s.count (ofPeer p (Event.isWaitSet id)) = 0 := Nat.eq_zero_of_not_pos hset
      rw [Flood.after, lateLookups_append_unset hunset, lateLookups_of_unset hunset]
      by_cases htake : ∃ x, task = .takeWait x
      · obtain ⟨x, rfl⟩ := htake
        refine lateLookups_of_unset ?_
        rw [List.countP_map]
        exact countP_waitSet hr (by simp)
      · refine Nat.eq_zero_of_le_zero (Nat.le_trans (lateLookups_le _ _ _) ?_)
        rw [hnew, countP_lookedUp hr fun x hx => htake ⟨x, hx⟩]

/-- Commands and arrivals are no lookups. -/
theorem late_quiet {new : List (PeerID × Event Message)} (hlog : s'.log = s.log ++ new)
    (hnew : ∀ e ∈ new, (∃ cmd, e.2 = .command cmd) ∨ ∃ q m, e.2 = .received q m)
    (p : PeerID) (id : SMessageID) :
    lateLookups s'.log p id = lateLookups s.log p id := by
  have hzero : new.countP (fun e => ofPeer p (Event.isLookedUp id) e.1 e.2) = 0 :=
    countP_quiet (P := ofPeer p (Event.isLookedUp id)) (fun _ _ => Bool.and_false _)
      (fun _ _ _ => Bool.and_false _) hnew
  by_cases hset : 0 < s.log.countP (fun e => ofPeer p (Event.isWaitSet id) e.1 e.2)
  · rw [hlog, lateLookups_append hset, hzero]
    rfl
  · have hunset := Nat.eq_zero_of_not_pos hset
    have hle := lateLookups_le new p id
    rw [hlog, lateLookups_append_unset hunset, lateLookups_of_unset hunset]
    omega

end Race

/-! ## Nothing else is going on -/

section Alone

variable {net : Setup} {s s' : Flood} {l : Label} {p r : PeerID} {id : SMessageID} {f : Str}
  {th : Thread} {now : Int} {task : Task} {rest : Multiset Work} {e : Effect}

/-- The message thread does nothing else while it looks up a hit or starts transfers. -/
theorem no_other (hs : (flood net).Reachable s) (hr : RunStep net s p th now task rest e)
    (hof : task.ofMessageThread = true) {w : Work} (hw : w ∈ rest) (howner : w.place.owner = p)
    (htask : (∃ x, w.task = .takeWait x) ∨ ∃ x f, w.task = .startTransfers x f) : False := by
  have hth : th = .message := (reachable_holds hs _ hr.mem).2 hof
  have hsolo : w.task.solo = true ∧ w.task.ofMessageThread = true ∧
      ∀ m : Message, w.task ≠ m.task := by
    rcases htask with ⟨x, hx⟩ | ⟨x, f, hx⟩ <;> rw [hx] <;>
      exact ⟨rfl, rfl, fun m hm => by cases m <;> cases hm⟩
  rcases place_of_messageThread hs (hr.mem_of_rest hw) hsolo.2.1 with hplace | ⟨m, hm⟩
  · refine alone hs hr hw hsolo.1 ?_
    rw [hplace, howner, hth]
  · exact hsolo.2.2 m hm

theorem lookUpWeight_pos {q : PeerID} (h : 0 < lookUpWeight p id q task) :
    q = p ∧ ∃ x, task = .takeWait x := by
  cases task with
  | takeWait x => exact ⟨(of_ite_pos h).1, x, rfl⟩
  | _ => exact absurd h (Nat.lt_irrefl 0)

theorem roundWeight_pos {q : PeerID} (h : 0 < roundWeight p id q task) :
    q = p ∧ ∃ x f, task = .startTransfers x f := by
  cases task with
  | startTransfers x f => exact ⟨(of_ite_pos h).1, x, f, rfl⟩
  | _ => exact absurd h (Nat.lt_irrefl 0)

/-- A lookup or a round of transfers is the only one at its peer. -/
theorem rest_weigh_eq_zero (hs : (flood net).Reachable s) (hr : RunStep net s p th now task rest e)
    (hof : task.ofMessageThread = true) :
    weigh (lookUpWeight p id) rest = 0 ∧ weigh (roundWeight p id) rest = 0 := by
  constructor
  · refine weigh_eq_zero fun w hw => Nat.eq_zero_of_not_pos fun hpos => ?_
    obtain ⟨howner, x, hx⟩ := lookUpWeight_pos hpos
    exact no_other hs hr hof hw howner (.inl ⟨x, hx⟩)
  · refine weigh_eq_zero fun w hw => Nat.eq_zero_of_not_pos fun hpos => ?_
    obtain ⟨howner, x, f, hx⟩ := roundWeight_pos hpos
    exact no_other hs hr hof hw howner (.inr ⟨x, f, hx⟩)

end Alone

/-! ## The marks of an id -/

/-- How often the wait entry of an id was set. -/
def Flood.sets (s : Flood) (p : PeerID) (id : SMessageID) : Nat :=
  s.count (ofPeer p (Event.isWaitSet id))

/-- How often a lookup found it. -/
def Flood.founds (s : Flood) (p : PeerID) (id : SMessageID) : Nat :=
  s.count (ofPeer p (Event.isFound id))

/-- What one step does to the wait entry of an id and to its marks. -/
inductive MarkStep (s s' : Flood) (p : PeerID) (id : SMessageID) : Prop
  | set (hentry : s'.entries p id = 1) (hset : s'.sets p id = s.sets p id + 1)
      (hfound : s'.founds p id = s.founds p id)
      (hlate : lateLookups s'.log p id = lateLookups s.log p id) : MarkStep s s' p id
  | lookUp (halone : s.total (roundWeight p id) = 0) (hentry : s'.entries p id = 0)
      (hset : s'.sets p id = s.sets p id)
      (hfound : s'.founds p id = s.founds p id + s.entries p id)
      (hlate : lateLookups s'.log p id =
        lateLookups s.log p id + if 0 < s.sets p id then 1 else 0) : MarkStep s s' p id
  | other (hle : s'.entries p id ≤ s.entries p id)
      (hentry : s'.WaitKept p id → s'.entries p id = s.entries p id)
      (hset : s'.sets p id = s.sets p id) (hfound : s'.founds p id = s.founds p id)
      (hlate : lateLookups s'.log p id = lateLookups s.log p id) : MarkStep s s' p id

section Marks

variable {net : Setup} {s s' : Flood} {l : Label} {p r : PeerID} {id : SMessageID} {f : Str}
  {th : Thread} {now : Int} {task : Task} {rest : Multiset Work} {e : Effect}

theorem entries_le_one : s.entries p id ≤ 1 := ite_le_one

theorem markStep (hs : (flood net).Reachable s) (hl : FloodStep net s l s') (p : PeerID)
    (id : SMessageID) : MarkStep s s' p id := by
  rcases FloodStep.total_cases (f := fun _ _ => 0) hl (fun _ _ _ => rfl) with
    ⟨r, th, now, task, rest, e, hr, rfl⟩ | ⟨htables, -, new, hlog, hnew⟩
  · have hset : (s.after r th rest e).sets p id = _ := hr.count
    have hfound : (s.after r th rest e).founds p id = _ := hr.count
    have hlate := hr.late p id
    rw [countP_ofPeer] at hset hfound hlate
    by_cases hrp : r = p
    · subst hrp
      rw [if_pos rfl] at hset hfound hlate
      change (s.after r th rest e).sets r id = s.sets r id + _ at hset
      change (s.after r th rest e).founds r id = s.founds r id + _ at hfound
      change _ = _ + (if 0 < s.sets r id then _ else 0) at hlate
      cases waitStep hr id with
      | set g id' htask hentry h1 h2 h3 =>
          rw [h1] at hset
          rw [h2, ite_self] at hlate
          rw [h3] at hfound
          exact .set hentry hset hfound hlate
      | lookUp x htask hentry h1 h2 h3 =>
          rw [h1] at hset
          rw [h2] at hlate
          rw [h3] at hfound
          refine .lookUp ?_ hentry hset hfound hlate
          subst htask
          rw [Flood.total, hr.work, weigh_cons, (rest_weigh_eq_zero hs hr rfl).2]
          rfl
      | other hle hentry h1 h2 h3 =>
          rw [h1] at hset
          rw [h2, ite_self] at hlate
          rw [h3] at hfound
          exact .other hle hentry hset hfound hlate
    · rw [if_neg hrp] at hset hfound hlate
      rw [ite_self] at hlate
      have hsame : (s.after r th rest e).entries p id = s.entries p id := by
        rw [Flood.entries, Flood.entries, Flood.after]
        simp [Ne.symm hrp]
      exact .other (Nat.le_of_eq hsame) (fun _ => hsame) hset hfound hlate
  · have hsame : s'.entries p id = s.entries p id := by
      rw [Flood.entries, htables, Flood.entries]
    exact .other (Nat.le_of_eq hsame) (fun _ => hsame)
      (count_quiet (fun _ _ => Bool.and_false _) (fun _ _ _ => Bool.and_false _) hnew hlog)
      (count_quiet (fun _ _ => Bool.and_false _) (fun _ _ _ => Bool.and_false _) hnew hlog)
      (late_quiet hlog hnew p id)

/-- **What a lookup finds was set**: successful lookups and the entry that is there
are together at most as many as `SetWaitQueryHit` was called. -/
theorem found_le (h : (flood net).Reachable s) (p : PeerID) (id : SMessageID) :
    s.founds p id + s.entries p id ≤ s.sets p id := by
  refine System.Reachable.invariant
    (I := fun s => s.founds p id + s.entries p id ≤ s.sets p id) ?_ ?_ h
  · rintro s rfl
    exact Nat.le_refl 0
  · intro s l s' hs ih hl
    cases markStep hs hl p id <;> omega

/-- **Only a late lookup finds the entry.** -/
theorem found_late (h : (flood net).Reachable s) (p : PeerID) (id : SMessageID) :
    s.founds p id ≤ lateLookups s.log p id := by
  refine System.Reachable.invariant
    (I := fun s => s.founds p id ≤ lateLookups s.log p id) ?_ ?_ h
  · rintro s rfl
    exact Nat.le_refl 0
  · intro s l s' hs ih hl
    have hle := found_le hs p id
    have hone : s.entries p id ≤ 1 := entries_le_one
    cases markStep hs hl p id with
    | set | other => omega
    | lookUp halone hentry hset hfound hlate =>
        split at hlate <;> omega

/-- **A late lookup finds the entry**, the first one at least, if it was not
removed. -/
theorem late_found (h : (flood net).Reachable s) (hc : s.WaitKept p id)
    (hlate : 0 < lateLookups s.log p id) : 0 < s.founds p id := by
  -- As long as nothing was found, an entry that was set is there, and no lookup was late.
  have hall := System.Reachable.invariant_while (waitKept_prefixClosed net p id)
    (I := fun s => 0 < s.founds p id ∨
      (0 < s.sets p id → s.entries p id = 1) ∧ lateLookups s.log p id = 0) ?_ ?_ h hc
  · rcases hall with hfound | ⟨-, hnone⟩
    · exact hfound
    · omega
  · rintro s rfl
    exact .inr ⟨fun hpos => absurd hpos (Nat.lt_irrefl 0), rfl⟩
  · intro s l s' hs _ hcs' ih hl
    cases markStep hs hl p id with
    | set hentry hset hfound hlate =>
        rcases ih with ih | ⟨-, ih⟩
        · exact .inl (by omega)
        · exact .inr ⟨fun _ => hentry, by omega⟩
    | lookUp halone hentry hset hfound hlate =>
        rcases ih with ih | ⟨ihentry, ih⟩
        · exact .inl (by omega)
        · by_cases hpos : 0 < s.sets p id
          · have := ihentry hpos
            exact .inl (by omega)
          · rw [if_neg hpos] at hlate
            exact .inr ⟨fun hpos' => absurd hpos' (by omega), by omega⟩
    | other hle hentry hset hfound hlate =>
        have hsame := hentry hcs'
        rcases ih with ih | ⟨ihentry, ih⟩
        · exact .inl (by omega)
        · exact .inr ⟨fun hpos => by rw [hsame]; exact ihentry (by omega), by omega⟩

/-- Rounds of transfers only come from successful lookups. -/
theorem rounds_step (hl : FloodStep net s l s') (p : PeerID) (id : SMessageID) :
    s'.total (roundWeight p id) + s.founds p id ≤
      s.total (roundWeight p id) + s'.founds p id := by
  rcases FloodStep.total_cases (f := roundWeight p id) hl (fun _ _ hst => hst.roundWeight) with
    ⟨r, th, now, task, rest, e, hr, rfl⟩ | ⟨-, htotal, new, hlog, hnew⟩
  · have htotal := hr.total (f := roundWeight p id)
    have hfound : (s.after r th rest e).founds p id = _ := hr.count
    change _ = s.founds p id + _ at hfound
    by_cases hstart : ∃ x f, task = .startTransfers x f
    · obtain ⟨x, f, rfl⟩ := hstart
      obtain ⟨hgain, -⟩ := round_start hr p id
      omega
    · have hstep : e.gain (roundWeight p id) r + _ = _ + _ :=
        round_step hr fun x f heq => hstart ⟨x, f, heq⟩
      omega
  · have hfound : s'.founds p id = s.founds p id :=
      count_quiet (fun _ _ => Bool.and_false _) (fun _ _ _ => Bool.and_false _) hnew hlog
    omega

/-- If the entry is set once, then no lookup was late while it is there, and one
was while a round of transfers is still to be started. -/
theorem reachable_position (h : (flood net).Reachable s) (hc : ReplicatesIssue net s.log p)
    (id : SMessageID) :
    (s.entries p id = 1 → lateLookups s.log p id = 0) ∧
      (0 < s.total (roundWeight p id) → lateLookups s.log p id = 1) := by
  refine System.Reachable.invariant_while (replicatesIssue_prefixClosed net p)
    (I := fun s => (s.entries p id = 1 → lateLookups s.log p id = 0) ∧
      (0 < s.total (roundWeight p id) → lateLookups s.log p id = 1)) ?_ ?_ h hc
  · rintro s rfl
    refine ⟨fun _ => rfl, fun hpos => ?_⟩
    rw [total_initialFlood fun _ _ hst => hst.roundWeight] at hpos
    exact absurd hpos (Nat.lt_irrefl 0)
  · intro s l s' hs _ hcs' ⟨ihentry, ihround⟩ hl
    have hfound := found_le hs p id
    have hrounds := rounds_le hs p id
    change _ ≤ s.founds p id at hrounds
    have hstep := rounds_step hl p id
    have hone : s.entries p id ≤ 1 := entries_le_one
    cases markStep hs hl p id with
    | set hentry hset hfound' hlate =>
        have hsets : s'.sets p id ≤ 1 :=
          Nat.le_trans (Nat.le_add_left _ _) (wait_tokens (.step l hs hl) hcs' id)
        have hunset : s.sets p id = 0 := by omega
        rw [hlate, lateLookups_of_unset hunset]
        exact ⟨fun _ => rfl, fun hpos => by omega⟩
    | lookUp halone hentry hset hfound' hlate =>
        refine ⟨fun hpos => by omega, fun hpos => ?_⟩
        have hnone := ihentry (by omega)
        rw [if_pos (by omega)] at hlate
        omega
    | other hle hentry hset hfound' hlate =>
        rw [hlate]
        exact ⟨fun hpos => ihentry (by omega), fun hpos => ihround (by omega)⟩

end Marks

/-! ## Which hits a round of transfers walks over -/

section Positions

variable {net : Setup} {s s' : Flood} {l : Label} {p r : PeerID} {id : SMessageID} {f : Str}
  {th : Thread} {now : Int} {task : Task} {rest : Multiset Work} {e : Effect}

theorem gain_lookUp (e : Effect) : e.gain (lookUpWeight p id) r =
    (e.next.map (lookUpWeight p id r)).sum :=
  gain_next (fun _ _ => rfl) fun _ m => by cases m <;> rfl

theorem lookUpWeight_leads {task' : Task} {t : Tables} (hl : Leads net r now t task task')
    (hrecord : ∀ x since, task ≠ .record x since) : lookUpWeight p id r task' = 0 := by
  cases hl with
  | lookUp x since => exact absurd rfl (hrecord x since)
  | ownTest test n ht | test x ht => cases ht <;> rfl
  | _ => rfl

/-- **Every recorded hit is looked up**, once. -/
theorem lookups_eq (h : (flood net).Reachable s) (p : PeerID) (id : SMessageID) :
    s.total (lookUpWeight p id) + s.count (ofPeer p (Event.isLookedUp id)) =
      s.count (ofPeer p (Event.isRecordedFor id)) := by
  refine conserve_rule (any_run net) ?_ (fun _ _ => ⟨Bool.and_false _, Bool.and_false _⟩)
    (fun _ _ _ => ⟨Bool.and_false _, Bool.and_false _⟩) ?_ h trivial
  · intro r task hstart
    have hnone := hstart.strand
    cases task <;> first | rfl | cases hnone
  · intro s r th now task rest e hs _ _ hr
    have hrecorded : (∀ x since, task ≠ .record x since) →
        e.history.countP (ofPeer p (Event.isRecordedFor id) r) = 0 := by
      intro hnot
      refine countP_events_eq_zero hr (fun _ _ => Bool.and_false _) fun ev hl => ?_
      cases hl with
      | recorded x since => exact absurd rfl (hnot x since)
      | _ => exact Bool.and_false _
    have hweight : ∀ {x : Hit}, (if r = p then if (x.id == id) = true then 1 else 0 else 0) =
        lookUpWeight p id r (.takeWait x) := by
      intro x
      by_cases hrp : r = p
      · rw [if_pos hrp]
        exact if_congr ⟨fun hid => ⟨hrp, hid⟩, fun hboth => hboth.2⟩ rfl rfl
      · rw [if_neg hrp]
        exact (if_neg fun hboth => hrp hboth.1).symm
    cases task with
    | record x since =>
        rw [countP_lookedUp hr (by simp), gain_lookUp, countP_ofPeer]
        have hperform := hr.perform
        simp only [perform, Option.some.injEq] at hperform
        subst hperform
        show lookUpWeight p id r (.takeWait x) + 0 + 0 = 0 + if r = p then
          [Event.recorded (M := Message) x.id ⟨x.serverInfo, since⟩].countP _ else 0
        rw [List.countP_singleton, Event.isRecordedFor, hweight]
        omega
    | takeWait x =>
        have hzero : e.gain (lookUpWeight p id) r = 0 := by
          refine gain_eq_zero hr.perform (fun task' hl => ?_) fun q m hsend => by cases hsend
          cases hl with
          | transfer x f hf => rfl
          | create hc => cases hc
        rw [hrecorded (by simp), hzero, (perform_takeWait hr.perform).1, countP_ofPeer,
          List.countP_singleton, Event.isLookedUp, hweight]
        omega
    | _ =>
        have hzero : e.gain (lookUpWeight p id) r = 0 := by
          refine gain_eq_zero hr.perform (fun task' hl => ?_) fun q m _ => by cases m <;> rfl
          exact lookUpWeight_leads hl (by simp)
        rw [hrecorded (by simp), hzero, countP_lookedUp hr (by simp)]
        rfl

theorem length_resultsIn (l : List (PeerID × Event Message)) (p : PeerID) (id : SMessageID) :
    (resultsIn l p id).length =
      l.countP fun e => ofPeer p (Event.isRecordedFor id) e.1 e.2 := by
  rw [← List.countP_true, resultsIn, List.countP_filterMap]
  refine List.countP_congr fun e _ => ?_
  obtain ⟨r, ev⟩ := e
  cases ev with
  | recorded id' x =>
      by_cases hboth : r = p ∧ (id' == id) = true <;>
        simp [ofPeer, Event.isRecordedFor, hboth]
  | _ => simp [ofPeer, Event.isRecordedFor]

/-- A round of transfers walked over the hits recorded up to the first late lookup. -/
def Flood.RoundAt (net : Setup) (s : Flood) (p : PeerID) (id : SMessageID) (type : Str)
    (requests : List SClientRequest) : Prop :=
  0 < s.sets p id ∧ earlyLookups s.log p id + 1 ≤ (resultsIn s.log p id).length ∧
    ∃ f, s.WaitsFor net p id f ∧ requests = transferRequests net p type f
      ((resultsIn s.log p id).take (earlyLookups s.log p id + 1))

theorem Flood.RoundAt.grows {type : Str} {requests : List SClientRequest}
    (h : s.RoundAt net p id type requests) (hg : Grows s s') :
    s'.RoundAt net p id type requests := by
  obtain ⟨hset, hlen, f, hwaits, hreq⟩ := h
  obtain ⟨new, hlog⟩ := hg.log
  rw [Flood.RoundAt, ← hlog, earlyLookups_append hset, resultsIn_append,
    List.take_append_of_le_length hlen, List.length_append]
  exact ⟨Nat.lt_of_lt_of_le hset hg.log.sublist.countP_le, by omega, f, hwaits.grows hg, hreq⟩

theorem roundAt_start (hs : (flood net).Reachable s) (hc : ReplicatesIssue net s.log p)
    (hkept : s.HitsKept p id) {x : Hit} {results : List SQueryResult}
    (hr : RunStep net s p th now (.startTransfers x f) rest e) (hid : (x.id == id) = true)
    (hres : (s.tables p).queryHitResult.find? x.id = some results) :
    s.RoundAt net p id x.kind.type (transferRequests net p x.kind.type f results) := by
  have hpos : 0 < s.total (roundWeight p id) := weigh_pos hr.mem (by
    show 0 < if p = p ∧ (x.id == id) = true then 1 else 0
    rw [if_pos ⟨rfl, hid⟩]
    exact Nat.one_pos)
  have hlate := (reachable_position hs hc id).2 hpos
  have hset : 0 < s.sets p id := by
    have hrounds := rounds_le hs p id
    have hfound := found_le hs p id
    change _ ≤ s.founds p id at hrounds
    omega
  have hlen : (resultsIn s.log p id).length = earlyLookups s.log p id + 1 := by
    have hsum := early_add_late s.log p id
    have hlookups := lookups_eq hs p id
    have halone : s.total (lookUpWeight p id) = 0 := by
      rw [Flood.total, hr.work, weigh_cons, (rest_weigh_eq_zero hs hr rfl).1]
      rfl
    rw [halone, Nat.zero_add, Flood.count, Flood.count, ← hsum, hlate] at hlookups
    rw [length_resultsIn, ← hlookups]
  have hresults : results = resultsIn s.log p id := by
    rw [← (reachable_results hs p id).2 hkept, ← UnorderedMap.find?_congr _ hid, hres]
    rfl
  refine ⟨hset, Nat.le_of_eq hlen.symm, f, ?_, ?_⟩
  · exact Flood.WaitsFor.congr ((reachable_waits hs).1 _ hr.mem hc) hid
  · rw [← hlen, List.take_length, hresults]

/-- **Every round of transfers walked over the hits recorded up to the first late
lookup**, if the entry is set once and the hit list is kept. -/
theorem reachable_round (h : (flood net).Reachable s) (hc : ReplicatesIssue net s.log p)
    (hkept : s.HitsKept p id) {type : Str} {id' : SMessageID} {requests : List SClientRequest}
    (hmem : (p, .transfersStarted type id' requests) ∈ s.log) (hid : (id' == id) = true) :
    s.RoundAt net p id type requests := by
  let I : Flood → PeerID → Event Message → Prop := fun s r ev => ∀ type id' requests,
    ev = .transfersStarted type id' requests → r = p → (id' == id) = true →
      s.RoundAt net p id type requests
  have hall := events_rule (I := I)
    (C := fun s => ReplicatesIssue net s.log p ∧ s.HitsKept p id) ?_ ?_ ?_ ?_ ?_ h ⟨hc, hkept⟩
  · exact hall _ hmem type id' requests rfl rfl hid
  · exact fun s l s' hl hc => ⟨hc.1.back (FloodStep.grows hl), hc.2.back (FloodStep.grows hl)⟩
  · exact fun s s' r ev hg _ hev type id' requests hev' hr hid =>
      (hev type id' requests hev' hr hid).grows hg
  · intro s r th now task rest e hs hcs _ hr
    refine ⟨?_, ?_⟩
    · intro ev _ hl type id' requests hev hrp hid
      subst hrp
      subst hev
      cases hl with
      | transfersStarted x f results hres =>
          exact (roundAt_start hs hcs.1 hcs.2 hr hid hres).grows hr.grows
    · intro q m _ _ type id' requests hev
      cases hev
  · intro s r cmd _ type id' requests hev
    cases hev
  · intro s s' r q m rest _ _ _ _ _ type id' requests hev
    cases hev

end Positions

end P2PFileSharing
