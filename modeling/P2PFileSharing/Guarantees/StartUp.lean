import P2PFileSharing.Proofs.Bridge
import P2PFileSharing.Proofs.Filling
import P2PFileSharing.Proofs.StartUp

/-!
# The startup replication and a peer that asked first

`StartReplicateAllFiles` looks once which filenames are unrecorded. A peer that
takes part in another peer's replication of a file between that look and its own
inv_query for the file floods one all the same.
-/

namespace P2PFileSharing

/-- The filename a program point of the startup replication is about to flood. -/
def Section.startsUp : Section → Option Str
  | .sendInvQuery _ f true | .cacheOwnQuery _ _ (some f) | .broadcastOwn _ _ (some f) => some f
  | _ => none

/-- The startup replication of a peer has a filename of its snapshot still to flood. -/
def Network.StillToFlood (s : Network) (p : PeerID) (f : Str) : Prop :=
  ∃ sec ∈ (s.peers p).threads .replicate, sec.startsUp = some f

/-- The peer has recorded the filename: it took part in a replication of it. -/
def Network.HasRecorded (s : Network) (p : PeerID) (f : Str) : Prop :=
  f ∈ (s.peers p).tables.replicateQueryFilename

/-- The filename of the inv_query that `StartReplicateAllFiles` hands to `Broadcast`
with a step. -/
def Network.floods (s : Network) : Label → Option (PeerID × Str)
  | .run p .replicate _ =>
      match (s.peers p).threads .replicate with
      | .broadcastOwn _ message _ :: _ =>
          match splitFields message with
          | type :: _ :: _ :: _ :: _ :: _ :: f :: _ =>
              if type = peerMsgInvQuery then some (p, f) else none
          | _ => none
      | _ => none
  | _ => none

/-- The filename that `HandleInvQuery` finds unrecorded and records with a step. -/
def Network.records (s : Network) : Label → Option (PeerID × Str)
  | .run p th _ =>
      match (s.peers p).threads th with
      | .act .invQuery message _ _ :: _ =>
          match (splitFields message)[6]? with
          | some f => if f ∈ (s.peers p).tables.replicateQueryFilename then none else some (p, f)
          | none => none
      | _ => none
  | _ => none

/-- The runs in which no filename is recorded that the same peer's startup
replication has still to flood. -/
def recordsInTime (net : Setup) : System Network Label :=
  (network net).restrict fun s l => ∀ p f, s.records l = some (p, f) → ¬s.StillToFlood p f

section Network

variable {net : Setup} {s s' : Network} {a : Flood} {l : Label} {p : PeerID} {f : Str}

theorem startsUp_code (task : Task) : task.code.startsUp = task.startsUp := by
  cases task with
  | sendInvQuery out f wait => cases wait <;> rfl
  | cacheOwn x wait | broadcastOwn x wait => cases wait <;> rfl
  | _ => rfl

theorem Refines.stillToFlood (h : Refines s a) :
    s.StillToFlood p f ↔
      ∃ w ∈ a.work, w.place = .thread p .replicate ∧ w.task.startsUp = some f := by
  constructor
  · intro h
    obtain ⟨sec, hsec, hf⟩ := h
    have hat : sec ∈ s.sectionsAt (.thread p .replicate) := hsec
    obtain ⟨task, hw, hcode⟩ := h.exists_task hat
    exact ⟨_, hw, rfl, by rw [← startsUp_code, hcode]; exact hf⟩
  · intro h
    obtain ⟨w, hw, hplace, hf⟩ := h
    have hmem := h.mem_sectionsAt hw
    rw [hplace] at hmem
    exact ⟨_, hmem, by rw [startsUp_code]; exact hf⟩

/-- What `HandleInvQuery` is about to record. -/
theorem records_act {th : Thread} {now : Int} {x : Query} {k : Int} {rest : List Section}
    (hv : x.Valid) (hth : (s.peers p).threads th = (Task.act x).code :: rest)
    (hreq : x.request = .invQuery f k) (hnew : ¬s.HasRecorded p f) :
    s.records (.run p th now) = some (p, f) := by
  have h6 : (splitFields x.text)[6]? = some f := by
    rw [splitFields_query hv, Query.fields, hreq]
    rfl
  simp only [Network.records, hth, Task.code, hreq, Request.handler, h6]
  exact if_neg hnew

/-- In a run that records in time, the startup replications yield. -/
theorem recordsInTime_flood (h : (recordsInTime net).Reachable s) :
    ∃ a, (flood net).Reachable a ∧ Refines s a ∧ a.Yields := by
  induction h with
  | init h0 =>
      rw [show _ = initialNetwork net from h0]
      exact ⟨initialFlood net, .init rfl, initial_refines net, yields_init net⟩
  | @step s s' l _ hl ih =>
      obtain ⟨a, ha, hR, hy⟩ := ih
      obtain ⟨hguard, hstep⟩ := hl
      by_cases hrun : ∃ p th now, l = .run p th now
      · obtain ⟨p, th, now, rfl⟩ := hrun
        obtain ⟨task, work, e, ⟨rest, hth⟩, hr, hR'⟩ := run_refines ha hR hstep
        refine ⟨_, .step _ ha hr.step, hR', yields_run hr hy ?_⟩
        rintro x f k rfl hreq hnew w hw hplace hf
        have hvalid : x.Valid := (reachable_valid ha).work _ hr.mem
        rw [← hR.tables] at hnew
        exact hguard p f (records_act hvalid hth hreq hnew)
          (hR.stillToFlood.mpr ⟨w, hw, hplace, hf⟩)
      · obtain ⟨a', hl', hR'⟩ := step_refines ha hR hstep
        exact ⟨a', .step _ ha hl', hR',
          yields_quiet hl' (fun p th now hrun' => hrun ⟨p, th, now, hrun'⟩) hy⟩

/-- A step that records a filename is `HandleInvQuery` acting on an inv_query for it. -/
theorem records_run (ha : (flood net).Reachable a) (hR : Refines s a)
    (hstep : step net s l = some s') (h : s.records l = some (p, f)) :
    ∃ th now x k work e, RunStep net a p th now (.act x) work e ∧
      Refines s' (a.after p th work e) ∧ x.request = .invQuery f k ∧
      f ∉ (a.tables p).replicateQueryFilename := by
  cases l with
  | run q th now =>
      obtain ⟨task, work, e, ⟨rest, hth⟩, hr, hR'⟩ := run_refines ha hR hstep
      simp only [Network.records, hth] at h
      cases task with
      | act x =>
          have hv : x.Valid := (reachable_valid ha).work _ hr.mem
          cases hreq : x.request with
          | invQuery g k =>
              have h6 : (splitFields x.text)[6]? = some g := by
                rw [splitFields_query hv, Query.fields, hreq]
                rfl
              simp only [Task.code, hreq, Request.handler, h6] at h
              split at h
              · cases h
              · next hnew =>
                  injection h with h
                  injection h with hp hf
                  subst hp hf
                  rw [hR.tables] at hnew
                  exact ⟨th, now, x, k, work, e, hr, hR', hreq, hnew⟩
          | query | conTestQuery | conTestObtain =>
              simp only [Task.code, hreq, Request.handler] at h
              cases h
      | _ => cases h
  | _ => cases h

/-- **The startup replication yields to a peer that asked first, as long as no
filename is recorded that it has still to flood.** In such a run
`StartReplicateAllFiles` never floods a recorded filename; and a step that records
one too late leaves a filename that is recorded and will be flooded. -/
theorem startup_yields (net : Setup) {s : Network} (hs : (recordsInTime net).Reachable s) :
    (∀ l s' p f, step net s l = some s' → s.floods l = some (p, f) → ¬s.HasRecorded p f) ∧
      ∀ l s' p f, step net s l = some s' → s.records l = some (p, f) → s.StillToFlood p f →
        s'.StillToFlood p f ∧ s'.HasRecorded p f := by
  obtain ⟨a, ha, hR, hy⟩ := recordsInTime_flood hs
  constructor
  · intro l s' p f hstep hflood
    cases l with
    | run q th now =>
        cases th with
        | replicate =>
            obtain ⟨task, work, e, ⟨rest, hth⟩, hr, -⟩ := run_refines ha hR hstep
            simp only [Network.floods, hth] at hflood
            obtain ⟨hof, hnew⟩ := hy _ hr.mem q rfl
            cases task with
            | broadcastOwn x wait =>
                obtain ⟨g, k, rfl, hreq⟩ := hof
                have hv : x.Valid := (reachable_valid ha).work _ hr.mem
                simp only [Task.code, splitFields_query hv, Query.fields, hreq, headFields,
                  Request.args, Request.type, List.cons_append, List.nil_append, if_true,
                  Option.some.injEq, Prod.mk.injEq] at hflood
                obtain ⟨rfl, rfl⟩ := hflood
                rw [Network.HasRecorded, hR.tables]
                exact hnew g rfl
            | _ => cases hflood
        | _ => cases hflood
    | _ => cases hflood
  · intro l s' p f hstep hrecord hpending
    obtain ⟨th, now, x, k, work, e, hr, hR', hreq, hnew⟩ := records_run ha hR hstep hrecord
    obtain ⟨w, hw, hplace, hf⟩ := hR.stillToFlood.mp hpending
    constructor
    · refine hR'.stillToFlood.mpr ⟨w, ?_, hplace, hf⟩
      rw [hr.work] at hw
      rcases Multiset.mem_cons.mp hw with rfl | hw
      · cases hf
      · exact Multiset.mem_add.mpr (.inl hw)
    · have hperform := hr.perform
      simp only [perform, Option.some.injEq, actOnRequest, hreq] at hperform
      rw [if_neg (by simpa using hnew)] at hperform
      rw [Network.HasRecorded, hR'.tables, after_self]
      split at hperform <;>
        (subst hperform
         exact List.mem_cons_self)

end Network

/-- Peer 1 takes its snapshot, takes part in peer 0's replication of the file, and is
about to flood its own inv_query. -/
theorem startup_does_not_yield :
    Reachable bothReplicate askedFirst ∧
      (step bothReplicate askedFirst (.run 1 .replicate 0)).isSome = true ∧
      askedFirst.floods (.run 1 .replicate 0) = some (1, theFile.1) ∧
      askedFirst.HasRecorded 1 theFile.1 :=
  ⟨reachable_finalState _ _, by decide +kernel, by decide +kernel, by
    rw [Network.HasRecorded]
    decide +kernel⟩

instance decidableStillToFlood (s : Network) (p : PeerID) (f : Str) :
    Decidable (s.StillToFlood p f) :=
  inferInstanceAs (Decidable (∃ sec ∈ (s.peers p).threads .replicate, sec.startsUp = some f))

/-- Whether the filename that a step records is still to be flooded. -/
instance decidableRecordsInTime (s : Network) (l : Label) :
    Decidable (∀ p f, s.records l = some (p, f) → ¬s.StillToFlood p f) :=
  decidable_of_iff (∀ x ∈ s.records l, ¬s.StillToFlood x.1 x.2)
    ⟨fun h p f hrecord => h (p, f) hrecord, fun h x hrecord => h x.1 x.2 hrecord⟩

/-- Peer 1 is asked for one of its two files before it takes its snapshot. -/
def askedBefore : Network :=
  (System.runSteps
    (System.guarded (step sharedAndOwn) fun s l =>
      ∀ p f, s.records l = some (p, f) → ¬s.StillToFlood p f)
    (initialNetwork sharedAndOwn) Label.askedBefore).getD (initialNetwork sharedAndOwn)

theorem startup_yields_askedBefore :
    askedBefore.HasRecorded 1 theFile.1 ∧
      askedBefore.floods (.run 1 .replicate 0) = some (1, otherFile.1) ∧
      ¬askedBefore.HasRecorded 1 otherFile.1 := by
  have hs : (recordsInTime sharedAndOwn).Reachable askedBefore := by
    refine System.Reachable.getD_runSteps (.init rfl) ?_
    intro l _ s s' hstep
    exact System.guarded_eq_some hstep
  have hsome : (step sharedAndOwn askedBefore (.run 1 .replicate 0)).isSome = true := by
    decide +kernel
  have hfloods : askedBefore.floods (.run 1 .replicate 0) = some (1, otherFile.1) := by
    decide +kernel
  obtain ⟨s', hstep⟩ := Option.isSome_iff_exists.mp hsome
  refine ⟨?_, hfloods, (startup_yields sharedAndOwn hs).1 _ s' 1 otherFile.1 hstep hfloods⟩
  rw [Network.HasRecorded]
  decide +kernel

end P2PFileSharing
