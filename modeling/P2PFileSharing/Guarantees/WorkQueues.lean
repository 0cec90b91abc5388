import P2PFileSharing.Model.WorkQueues

/-!
# Nobody sleeps over a queued item

The notification comes after the mutex was given back, and one that finds nobody asleep is
lost. Still there is always someone awake, or a notification to come, as long as something
is queued; and the items are popped one by one in the order in which they were pushed.
-/

namespace P2PFileSharing

variable {q : QueueName} {producers consumers : Nat} {s : q.State producers consumers}

/-- What holds of a queue and its threads at any moment. -/
structure QueueServed (s : q.State producers consumers) : Prop where
  /-- Not: something queued, all asleep, and no notification to come. -/
  no_lost_wakeup : ¬(s.items ≠ [] ∧ (∀ c, s.consumers c = .asleep) ∧
    ∀ p, ¬(s.producers p).Owes)
  /-- The pops, each by one consumer, are of the items in push order; the others are queued. -/
  in_order : s.popped.map Prod.snd ++ s.items = s.pushed

/-- With at least one thread that pops, every queue is served in every run. -/
theorem queues_served (hconsumers : 0 < consumers)
    (h : (q.system producers consumers).Reachable s) : QueueServed s where
  no_lost_wakeup := by
    intro hlost
    obtain ⟨hitems, hasleep, hnobody⟩ := hlost
    have hnonempty : Nonempty (Fin consumers) := ⟨⟨0, hconsumers⟩⟩
    obtain ⟨p, howes⟩ := WorkQueue.attended h hitems hasleep
    exact hnobody p howes
  in_order := Fifo.popped_append_items (WorkQueue.refines_fifo h)

/-- Both workers of the file client go to sleep; a request is pushed, and its notification is
yet to come. -/
def pushToSleepers (req : SClientRequest) : List (WorkQueueLabel SClientRequest (Fin 1) (Fin 2)) :=
  [.enter 0, .test 0, .enter 1, .test 1, .lock 0 req, .push 0, .unlock 0]

/-- Where it leaves the queue. -/
def pushedToSleepers (req : SClientRequest) : QueueName.requests.State 1 fileClientThreadNum :=
  (System.runSteps WorkQueue.step WorkQueue.initial (pushToSleepers req)).getD WorkQueue.initial

theorem reachable_pushedToSleepers (req : SClientRequest) :
    (QueueName.requests.system 1 fileClientThreadNum).Reachable (pushedToSleepers req) :=
  System.Reachable.getD_runSteps (.init rfl) fun _ _ _ _ h => h

theorem queues_served_pushedToSleepers :
    QueueServed (pushedToSleepers ⟨.requestDownloadFile, ['f'], ['x'], 3000⟩) :=
  queues_served (by decide) (reachable_pushedToSleepers _)

end P2PFileSharing
