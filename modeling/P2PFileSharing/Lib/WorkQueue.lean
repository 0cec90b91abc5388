import P2PFileSharing.Lib.Runs

/-!
# A queue under a mutex and a condition variable

Producers lock, push, unlock and only then notify one waiting thread. A consumer locks, and
as long as the queue is empty it waits: it falls asleep and gives the mutex back in one step,
is woken by a notification or for no reason, and has to get the mutex again before it looks
once more. There are any number of both.

What the threads do to the queue is what they do to a first-in first-out queue with atomic
operations; and it is never the case that there is something in the queue, everyone sleeps
and nobody is going to notify.
-/

namespace P2PFileSharing

variable {α ι κ : Type}

/-- Where a producer is. -/
inductive ProducerPoint (α : Type)
  | idle
  /-- It holds the mutex and is about to push. -/
  | locked (x : α)
  /-- It holds the mutex and has pushed. -/
  | pushed
  /-- It has unlocked and is about to notify. -/
  | unlocked

/-- It has pushed and not notified yet. -/
def ProducerPoint.Owes : ProducerPoint α → Prop
  | .pushed | .unlocked => True
  | .idle | .locked _ => False

/-- Where a consumer is. -/
inductive ConsumerPoint
  /-- Busy with something else, or about to lock. -/
  | running
  /-- It holds the mutex and is about to test whether the queue is empty. -/
  | locked
  | asleep
  /-- Woken, but without the mutex so far. -/
  | woken
  /-- It holds the mutex, and the queue was not empty. -/
  | ready
  deriving DecidableEq

/-- The queue with its threads, and what was pushed and popped so far. -/
structure WorkQueue (α ι κ : Type) where
  items : List α
  mutex : Bool
  producers : ι → ProducerPoint α
  consumers : κ → ConsumerPoint
  pushed : List α
  popped : List (κ × α)

inductive WorkQueueLabel (α ι κ : Type)
  /-- A producer with this item gets the mutex. -/
  | lock (p : ι) (x : α)
  | push (p : ι)
  | unlock (p : ι)
  /-- `notify_one` wakes this consumer, or finds nobody asleep. -/
  | notify (p : ι) (woken : Option κ)
  /-- A consumer gets the mutex. -/
  | enter (c : κ)
  | test (c : κ)
  | pop (c : κ)
  /-- A consumer wakes up without having been notified. -/
  | spurious (c : κ)

namespace WorkQueue

section Step

variable [DecidableEq ι] [DecidableEq κ]

def moveProducer (s : WorkQueue α ι κ) (p : ι) (point : ProducerPoint α) : WorkQueue α ι κ :=
  { s with producers := Function.update s.producers p point }

def moveConsumer (s : WorkQueue α ι κ) (c : κ) (point : ConsumerPoint) : WorkQueue α ι κ :=
  { s with consumers := Function.update s.consumers c point }

variable [Fintype κ]

/-- One step of a thread. -/
def step (s : WorkQueue α ι κ) : WorkQueueLabel α ι κ → Option (WorkQueue α ι κ)
  | .lock p x =>
      match s.producers p, s.mutex with
      | .idle, false => some { s.moveProducer p (.locked x) with mutex := true }
      | _, _ => none
  | .push p =>
      match s.producers p with
      | .locked x =>
          some { s.moveProducer p .pushed with
            items := s.items ++ [x]
            pushed := s.pushed ++ [x] }
      | _ => none
  | .unlock p =>
      match s.producers p with
      | .pushed => some { s.moveProducer p .unlocked with mutex := false }
      | _ => none
  | .notify p woken =>
      match s.producers p, woken with
      | .unlocked, none =>
          if ∀ c, s.consumers c ≠ .asleep then some (s.moveProducer p .idle) else none
      | .unlocked, some c =>
          if s.consumers c = .asleep then some ((s.moveProducer p .idle).moveConsumer c .woken)
          else none
      | _, _ => none
  | .enter c =>
      if s.mutex = false ∧ (s.consumers c = .running ∨ s.consumers c = .woken) then
        some { s.moveConsumer c .locked with mutex := true }
      else none
  | .test c =>
      if s.consumers c = .locked then
        if s.items = [] then some { s.moveConsumer c .asleep with mutex := false }
        else some (s.moveConsumer c .ready)
      else none
  | .pop c =>
      if s.consumers c = .ready then
        match s.items with
        | [] => some { s.moveConsumer c .running with mutex := false }
        | x :: rest =>
            some { s.moveConsumer c .running with
              mutex := false
              items := rest
              popped := s.popped ++ [(c, x)] }
      else none
  | .spurious c => if s.consumers c = .asleep then some (s.moveConsumer c .woken) else none

end Step

/-- Nothing pushed, and nobody at the queue. -/
def initial : WorkQueue α ι κ where
  items := []
  mutex := false
  producers _ := .idle
  consumers _ := .running
  pushed := []
  popped := []

/-! ## What a step does -/

/-- The steps that are possible, by what they do. -/
inductive Moves [DecidableEq ι] [DecidableEq κ] (s : WorkQueue α ι κ) :
    WorkQueueLabel α ι κ → WorkQueue α ι κ → Prop
  | lock {p : ι} {x : α} (h : s.producers p = .idle) (hmutex : s.mutex = false) :
      Moves s (.lock p x) { s.moveProducer p (.locked x) with mutex := true }
  | push {p : ι} {x : α} (h : s.producers p = .locked x) :
      Moves s (.push p)
        { s.moveProducer p .pushed with items := s.items ++ [x], pushed := s.pushed ++ [x] }
  | unlock {p : ι} (h : s.producers p = .pushed) :
      Moves s (.unlock p) { s.moveProducer p .unlocked with mutex := false }
  | notifyNobody {p : ι} (h : s.producers p = .unlocked)
      (hnobody : ∀ c, s.consumers c ≠ .asleep) :
      Moves s (.notify p none) (s.moveProducer p .idle)
  | notify {p : ι} {c : κ} (h : s.producers p = .unlocked) (hc : s.consumers c = .asleep) :
      Moves s (.notify p (some c)) ((s.moveProducer p .idle).moveConsumer c .woken)
  | enter {c : κ} (hmutex : s.mutex = false)
      (h : s.consumers c = .running ∨ s.consumers c = .woken) :
      Moves s (.enter c) { s.moveConsumer c .locked with mutex := true }
  | sleep {c : κ} (h : s.consumers c = .locked) (hempty : s.items = []) :
      Moves s (.test c) { s.moveConsumer c .asleep with mutex := false }
  | find {c : κ} (h : s.consumers c = .locked) (hitems : s.items ≠ []) :
      Moves s (.test c) (s.moveConsumer c .ready)
  | popNothing {c : κ} (h : s.consumers c = .ready) (hempty : s.items = []) :
      Moves s (.pop c) { s.moveConsumer c .running with mutex := false }
  | pop {c : κ} {x : α} {rest : List α} (h : s.consumers c = .ready)
      (hitems : s.items = x :: rest) :
      Moves s (.pop c)
        { s.moveConsumer c .running with
          mutex := false
          items := rest
          popped := s.popped ++ [(c, x)] }
  | spurious {c : κ} (h : s.consumers c = .asleep) :
      Moves s (.spurious c) (s.moveConsumer c .woken)

variable {s s' : WorkQueue α ι κ} {l : WorkQueueLabel α ι κ}

theorem moves_of_step [DecidableEq ι] [DecidableEq κ] [Fintype κ] (h : s.step l = some s') :
    s.Moves l s' := by
  cases l with
  | lock p x =>
      rw [step] at h
      split at h
      · next hidle hmutex =>
          injection h with h
          rw [← h]
          exact .lock hidle hmutex
      · cases h
  | push p =>
      rw [step] at h
      split at h
      · next x hlocked =>
          injection h with h
          rw [← h]
          exact .push hlocked
      · cases h
  | unlock p =>
      rw [step] at h
      split at h
      · next hpushed =>
          injection h with h
          rw [← h]
          exact .unlock hpushed
      · cases h
  | notify p woken =>
      rw [step.eq_def] at h
      dsimp only at h
      split at h
      · next hunlocked =>
          split at h
          · next hnobody =>
              injection h with h
              rw [← h]
              exact .notifyNobody hunlocked hnobody
          · cases h
      · next c hunlocked =>
          split at h
          · next hasleep =>
              injection h with h
              rw [← h]
              exact .notify hunlocked hasleep
          · cases h
      · cases h
  | enter c =>
      rw [step] at h
      split at h
      · next henter =>
          injection h with h
          rw [← h]
          exact .enter henter.1 henter.2
      · cases h
  | test c =>
      rw [step] at h
      split at h
      · next hlocked =>
          split at h
          · next hempty =>
              injection h with h
              rw [← h]
              exact .sleep hlocked hempty
          · next hitems =>
              injection h with h
              rw [← h]
              exact .find hlocked hitems
      · cases h
  | pop c =>
      rw [step] at h
      split at h
      · next hready =>
          split at h
          · next hempty =>
              injection h with h
              rw [← h]
              exact .popNothing hready hempty
          · next x rest hitems =>
              injection h with h
              rw [← h]
              exact .pop hready hitems
      · cases h
  | spurious c =>
      rw [step] at h
      split at h
      · next hasleep =>
          injection h with h
          rw [← h]
          exact .spurious hasleep
      · cases h

end WorkQueue

/-- The queue with all its threads. -/
def workQueue (α ι κ : Type) [DecidableEq ι] [DecidableEq κ] [Fintype κ] :
    System (WorkQueue α ι κ) (WorkQueueLabel α ι κ) where
  init s := s = WorkQueue.initial
  step s l s' := s.step l = some s'

/-! ## First in, first out -/

/-- A queue with atomic operations, and what was pushed and popped so far. -/
structure Fifo (α κ : Type) where
  items : List α
  pushed : List α
  popped : List (κ × α)

inductive Fifo.Step : Fifo α κ → Fifo α κ → Prop
  | stay (s : Fifo α κ) : Fifo.Step s s
  | push (s : Fifo α κ) (x : α) :
      Fifo.Step s { s with items := s.items ++ [x], pushed := s.pushed ++ [x] }
  | pop {s : Fifo α κ} {x : α} {rest : List α} (c : κ) (h : s.items = x :: rest) :
      Fifo.Step s { s with items := rest, popped := s.popped ++ [(c, x)] }

def fifo (α κ ℓ : Type) : System (Fifo α κ) ℓ where
  init s := s = ⟨[], [], []⟩
  step s _ s' := Fifo.Step s s'

/-- What was pushed was popped in that order, or is still there. -/
theorem Fifo.popped_append_items {ℓ : Type} {s : Fifo α κ} (h : (fifo α κ ℓ).Reachable s) :
    s.popped.map Prod.snd ++ s.items = s.pushed := by
  refine h.invariant (I := fun s => s.popped.map Prod.snd ++ s.items = s.pushed) ?_ ?_
  · intro s h0
    rw [show s = ⟨[], [], []⟩ from h0]
    rfl
  · intro s l s' _ hI hstep
    cases hstep with
    | stay => exact hI
    | push x =>
        show s.popped.map Prod.snd ++ (s.items ++ [x]) = s.pushed ++ [x]
        rw [← List.append_assoc, hI]
    | pop c h =>
        rw [h] at hI
        rw [List.map_append, List.append_assoc]
        exact hI

namespace WorkQueue

/-- The queue without its threads. -/
def fifo (s : WorkQueue α ι κ) : Fifo α κ := ⟨s.items, s.pushed, s.popped⟩

variable {s s' : WorkQueue α ι κ} {l : WorkQueueLabel α ι κ}

section Fifo

variable [DecidableEq ι] [DecidableEq κ] [Fintype κ]

/-- A step of a thread is an atomic push or pop, or does nothing to the queue. -/
theorem step_fifo (h : s.step l = some s') : Fifo.Step s.fifo s'.fifo := by
  cases moves_of_step h with
  | push => exact .push _ _
  | pop _ hitems => exact .pop _ hitems
  | lock | unlock | notifyNobody | notify | enter | sleep | find | popNothing | spurious =>
      exact .stay _

theorem refines_fifo (h : (workQueue α ι κ).Reachable s) :
    (P2PFileSharing.fifo α κ (WorkQueueLabel α ι κ)).Reachable s.fifo := by
  have hrefine := h.refine (U := P2PFileSharing.fifo α κ (WorkQueueLabel α ι κ))
    (R := fun s a => a = s.fifo) ?_ ?_
  · obtain ⟨a, ha, rfl⟩ := hrefine
    exact ha
  · intro s h0
    rw [show s = initial from h0]
    exact ⟨_, rfl, rfl⟩
  · intro s a l s' _ hR hstep
    refine ⟨s'.fifo, ?_, rfl⟩
    rw [hR]
    exact step_fifo hstep

end Fifo

/-! ## No lost wake-up -/

/-- Someone is not asleep, or someone has yet to notify, or there is nothing to do. -/
def Attended (s : WorkQueue α ι κ) : Prop :=
  s.items ≠ [] → (∀ c, s.consumers c = .asleep) → ∃ p, (s.producers p).Owes

theorem attended_of_awake {c : κ} (h : s.consumers c ≠ .asleep) : s.Attended :=
  fun _ hall => absurd (hall c) h

theorem attended_of_owes {p : ι} (h : (s.producers p).Owes) : s.Attended := fun _ _ => ⟨p, h⟩

theorem producers_moveProducer [DecidableEq ι] (s : WorkQueue α ι κ) (p : ι)
    (point : ProducerPoint α) : (s.moveProducer p point).producers p = point :=
  Function.update_self ..

variable [DecidableEq κ] {c : κ} {point : ConsumerPoint}

theorem consumers_moveConsumer (s : WorkQueue α ι κ) (c : κ) (point : ConsumerPoint) :
    (s.moveConsumer c point).consumers c = point :=
  Function.update_self ..

/-- A consumer that goes anywhere but to sleep. -/
theorem attended_moveConsumer (hs' : s'.consumers = (s.moveConsumer c point).consumers)
    (h : point ≠ .asleep) : s'.Attended := by
  refine attended_of_awake (c := c) ?_
  rw [hs', consumers_moveConsumer]
  exact h

variable [DecidableEq ι] [Fintype κ]

theorem attended_step [Nonempty κ] (hI : s.Attended) (h : s.step l = some s') : s'.Attended := by
  cases moves_of_step h with
  | @lock p x hidle _ =>
      intro hitems hall
      obtain ⟨p', howes⟩ := hI hitems hall
      have hne : p' ≠ p := by
        intro heq
        rw [heq, hidle] at howes
        exact howes
      refine ⟨p', ?_⟩
      show (Function.update s.producers p (.locked x) p').Owes
      rw [Function.update_of_ne hne]
      exact howes
  | @push p | @unlock p =>
      refine attended_of_owes (p := p) ?_
      show ((s.moveProducer p _).producers p).Owes
      rw [producers_moveProducer]
      trivial
  | notifyNobody _ hnobody => exact attended_of_awake (hnobody (Classical.arbitrary κ))
  | sleep _ hempty => exact fun hitems => absurd hempty hitems
  | @notify _ c | @enter c | @find c | @popNothing c | @pop c | @spurious c =>
      exact attended_moveConsumer (c := c) rfl (by decide)

/-- In no run is there ever something in the queue while everyone sleeps and nobody has yet to
notify. -/
theorem attended [Nonempty κ] (h : (workQueue α ι κ).Reachable s) : s.Attended := by
  refine h.invariant ?_ ?_
  · intro s h0
    rw [show s = initial from h0]
    exact fun hitems => absurd rfl hitems
  · intro s l s' _ hI hstep
    exact attended_step hI hstep

end WorkQueue

end P2PFileSharing
