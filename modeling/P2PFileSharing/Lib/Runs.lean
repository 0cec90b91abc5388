import Mathlib

/-!
# Transition systems: runs, invariants, refinement

A system is a set of initial states and a labelled step relation. Everything
proved about runs here is one of four shapes, each an induction done once:
an invariant that steps preserve holds in every reachable state; it may lean on
a side condition about the run, as long as a run that meets the condition met
it all along; a measure that can only be raised once stays at most one; and a
refinement relates every reachable state of one system to a reachable state of
another. Runs whose steps all meet a condition are the runs of a system of their
own. What every run comes to, however it goes on, is inevitable; a measure that
each step lowers shows that it is, as long as no run gets stuck before. Where a state has only
one other to go to, all runs from one start that get stuck get stuck in the same state.
-/

namespace P2PFileSharing

/-- Initial states and labelled steps. -/
structure System (σ ℓ : Type) where
  init : σ → Prop
  step : σ → ℓ → σ → Prop

namespace System

variable {σ ℓ : Type}

/-- The states some run ends in. -/
inductive Reachable (T : System σ ℓ) : σ → Prop
  | init {s : σ} : T.init s → Reachable T s
  | step {s s' : σ} (l : ℓ) : Reachable T s → T.step s l s' → Reachable T s'

/-- Zero or more steps from one state to another. -/
inductive Steps (T : System σ ℓ) : σ → σ → Prop
  | refl (s : σ) : Steps T s s
  | tail {s s' s'' : σ} (l : ℓ) : Steps T s s' → T.step s' l s'' → Steps T s s''

variable {T : System σ ℓ}

theorem Reachable.steps {s s' : σ} (hs : T.Reachable s) (h : T.Steps s s') :
    T.Reachable s' := by
  induction h with
  | refl => exact hs
  | tail l _ hstep ih => exact .step l ih hstep

/-- The invariant rule: true at the start and preserved by every step. -/
theorem Reachable.invariant {I : σ → Prop} (hinit : ∀ s, T.init s → I s)
    (hstep : ∀ s l s', T.Reachable s → I s → T.step s l s' → I s') {s : σ}
    (h : T.Reachable s) : I s := by
  induction h with
  | init h0 => exact hinit _ h0
  | step l hs hl ih => exact hstep _ l _ hs ih hl

/-- A condition on the run so far: once broken it stays broken. -/
def PrefixClosed (T : System σ ℓ) (C : σ → Prop) : Prop :=
  ∀ s l s', T.step s l s' → C s' → C s

/-- The invariant rule for runs that meet a prefix-closed condition. -/
theorem Reachable.invariant_while {C I : σ → Prop} (hC : T.PrefixClosed C)
    (hinit : ∀ s, T.init s → I s)
    (hstep : ∀ s l s', T.Reachable s → C s → C s' → I s → T.step s l s' → I s')
    {s : σ} (h : T.Reachable s) (hc : C s) : I s := by
  induction h with
  | init h0 => exact hinit _ h0
  | step l hs hl ih =>
      have hcs := hC _ l _ hl hc
      exact hstep _ l _ hs hcs hc (ih hcs) hl

/-- The rule for what happens at most once: a measure that only rises while its
guard is down, by one, and then raises the guard for good. -/
theorem Reachable.once {C G : σ → Prop} {M : σ → Nat} (hC : T.PrefixClosed C)
    (hinit : ∀ s, T.init s → M s = 0)
    (hstep : ∀ s l s', T.Reachable s → C s → C s' → T.step s l s' →
      (M s' ≤ M s ∧ (G s → G s')) ∨ (¬G s ∧ M s' ≤ M s + 1 ∧ G s'))
    {s : σ} (h : T.Reachable s) (hc : C s) : M s ≤ 1 ∧ (0 < M s → G s) := by
  refine h.invariant_while (I := fun s => M s ≤ 1 ∧ (0 < M s → G s)) hC ?_ ?_ hc
  · intro s h0
    rw [hinit s h0]
    exact ⟨Nat.zero_le 1, fun h => absurd h (Nat.lt_irrefl 0)⟩
  · intro s l s' hs hcs hcs' ⟨hle, hG⟩ hl
    rcases hstep s l s' hs hcs hcs' hl with ⟨hdown, hkeep⟩ | ⟨hnot, hup, hraise⟩
    · exact ⟨Nat.le_trans hdown hle, fun hpos => hkeep (hG (Nat.lt_of_lt_of_le hpos hdown))⟩
    · have hzero : M s = 0 := Nat.eq_zero_of_not_pos fun hpos => hnot (hG hpos)
      rw [hzero] at hup
      exact ⟨hup, fun _ => hraise⟩

theorem Steps.trans {s s' s'' : σ} (h : T.Steps s s') (h' : T.Steps s' s'') :
    T.Steps s s'' := by
  induction h' with
  | refl => exact h
  | tail l _ hl ih => exact .tail l ih hl

/-- The step rule for a relation between an earlier and a later state. -/
theorem Steps.rel {R : σ → σ → Prop} (hrefl : ∀ s, R s s)
    (htail : ∀ s s' l s'', R s s' → T.step s' l s'' → R s s'') {s s' : σ}
    (h : T.Steps s s') : R s s' := by
  induction h with
  | refl => exact hrefl _
  | tail l _ hl ih => exact htail _ _ l _ ih hl

/-- Forward simulation: every reachable state of the system is related to a
reachable state of the one it refines. -/
theorem Reachable.refine {τ : Type} {U : System τ ℓ} {R : σ → τ → Prop}
    (hinit : ∀ s, T.init s → ∃ a, U.init a ∧ R s a)
    (hstep : ∀ s a l s', U.Reachable a → R s a → T.step s l s' →
      ∃ a', U.step a l a' ∧ R s' a')
    {s : σ} (h : T.Reachable s) : ∃ a, U.Reachable a ∧ R s a := by
  induction h with
  | init h0 =>
      obtain ⟨a, ha, hR⟩ := hinit _ h0
      exact ⟨a, .init ha, hR⟩
  | step l _ hl ih =>
      obtain ⟨a, ha, hR⟩ := ih
      obtain ⟨a', hstep', hR'⟩ := hstep _ a l _ ha hR hl
      exact ⟨a', .step l ha hstep', hR'⟩

/-! ## Some of the runs -/

/-- The runs in which every step meets a condition on the state it starts from. -/
def restrict (T : System σ ℓ) (G : σ → ℓ → Prop) : System σ ℓ where
  init := T.init
  step s l s' := G s l ∧ T.step s l s'

theorem Reachable.of_restrict {G : σ → ℓ → Prop} {s : σ} (h : (T.restrict G).Reachable s) :
    T.Reachable s := by
  induction h with
  | init h0 => exact .init h0
  | step l _ hl ih => exact .step l ih hl.2

/-- A run meets such a condition if a prefix-closed one that implies it held at its end. -/
theorem Reachable.restrict {C : σ → Prop} {G : σ → ℓ → Prop} (hC : T.PrefixClosed C)
    (hG : ∀ s l s', T.Reachable s → T.step s l s' → C s' → G s l) {s : σ} (h : T.Reachable s)
    (hc : C s) : (T.restrict G).Reachable s := by
  induction h with
  | init h0 => exact .init h0
  | step l hs hl ih => exact .step l (ih (hC _ l _ hl hc)) ⟨hG _ l _ hs hl hc, hl⟩

/-! ## What every run comes to -/

/-- Every run from here that goes on as long as it can passes through such a state. -/
inductive Inevitable (T : System σ ℓ) (P : σ → Prop) : σ → Prop
  | now {s : σ} : P s → Inevitable T P s
  | later {s : σ} : (∃ l s', T.step s l s') → (∀ l s', T.step s l s' → Inevitable T P s') →
      Inevitable T P s

/-- The rule for it: an invariant under which there is always a step, and a measure. -/
theorem inevitable_of_measure {P I : σ → Prop} (m : σ → Nat)
    (hgo : ∀ s, I s → ¬P s → ∃ l s', T.step s l s')
    (hstep : ∀ s l s', I s → ¬P s → T.step s l s' → I s' ∧ m s' < m s) :
    ∀ s, I s → T.Inevitable P s := by
  have hbound : ∀ n s, m s < n → I s → T.Inevitable P s := by
    intro n
    induction n with
    | zero =>
        intro s hlt _
        exact absurd hlt (Nat.not_lt_zero _)
    | succ n ih =>
        intro s hlt hI
        by_cases hP : P s
        · exact .now hP
        · refine .later (hgo s hI hP) ?_
          intro l s' hl
          obtain ⟨hI', hless⟩ := hstep s l s' hI hP hl
          exact ih s' (by omega) hI'
  intro s hI
  exact hbound (m s + 1) s (Nat.lt_succ_self _) hI

theorem Inevitable.imp {P Q : σ → Prop} {s : σ} (h : T.Inevitable P s) (hPQ : ∀ s, P s → Q s) :
    T.Inevitable Q s := by
  induction h with
  | now hP => exact .now (hPQ _ hP)
  | later hgo _ ih => exact .later hgo ih

/-- What some run can avoid for good is not inevitable. -/
theorem not_inevitable_of_avoids {P J : σ → Prop}
    (hJ : ∀ s, J s → ¬P s ∧ ∃ l s', T.step s l s' ∧ J s') {s : σ} (h : T.Inevitable P s) :
    ¬J s := by
  induction h with
  | now hP =>
      intro hs
      exact (hJ _ hs).1 hP
  | later _ _ ih =>
      intro hs
      obtain ⟨-, l, s', hl, hs'⟩ := hJ _ hs
      exact ih l s' hl hs'

/-! ## Only one way to go on -/

/-- So many steps of a partial function. -/
def iterate (next : σ → Option σ) (s : σ) : Nat → Option σ
  | 0 => some s
  | n + 1 => (iterate next s n).bind next

theorem iterate_add {next : σ → Option σ} {s s' : σ} {n : Nat} (h : iterate next s n = some s') :
    ∀ k, iterate next s (n + k) = iterate next s' k := by
  intro k
  induction k with
  | zero => exact h
  | succ k ih =>
      show (iterate next s (n + k)).bind next = (iterate next s' k).bind next
      rw [ih]

theorem iterate_of_stuck {next : σ → Option σ} {s : σ} (h : next s = none) :
    ∀ k, iterate next s (k + 1) = none := by
  intro k
  induction k with
  | zero => exact h
  | succ k ih =>
      show (iterate next s (k + 1)).bind next = none
      rw [ih]
      rfl

/-- Where a step changes nothing or is the step of a partial function, a reachable state is one
the function comes to. -/
theorem Reachable.iterate {next : σ → Option σ} {a : σ} (hinit : ∀ s, T.init s → s = a)
    (hstep : ∀ s l s', T.Reachable s → T.step s l s' → s' = s ∨ next s = some s') {s : σ}
    (h : T.Reachable s) : ∃ n, System.iterate next a n = some s := by
  induction h with
  | init h0 => exact ⟨0, congrArg some (hinit _ h0).symm⟩
  | step l hs hl ih =>
      obtain ⟨n, hn⟩ := ih
      rcases hstep _ l _ hs hl with heq | hnext
      · rw [heq]
        exact ⟨n, hn⟩
      · refine ⟨n + 1, ?_⟩
        show (System.iterate next a n).bind next = _
        rw [hn]
        exact hnext

/-- So there is only one state to end in. -/
theorem Reachable.eq_of_stuck (next : σ → Option σ) {a : σ} (hinit : ∀ s, T.init s → s = a)
    (hstep : ∀ s l s', T.Reachable s → T.step s l s' → s' = s ∨ next s = some s') {s s' : σ}
    (h : T.Reachable s) (h' : T.Reachable s') (hs : next s = none) (hs' : next s' = none) :
    s = s' := by
  have hle : ∀ {n n' : Nat} {s s' : σ}, n ≤ n' → next s = none →
      System.iterate next a n = some s → System.iterate next a n' = some s' → s = s' := by
    intro n n' s s' hle hs hn hn'
    obtain ⟨k, rfl⟩ := Nat.exists_eq_add_of_le hle
    rw [iterate_add hn] at hn'
    cases k with
    | zero => exact Option.some.inj hn'
    | succ k =>
        rw [iterate_of_stuck hs] at hn'
        cases hn'
  obtain ⟨n, hn⟩ := h.iterate hinit hstep
  obtain ⟨n', hn'⟩ := h'.iterate hinit hstep
  rcases Nat.le_total n n' with h | h
  · exact hle h hs hn hn'
  · exact (hle h hs' hn' hn).symm

/-! ## Fixed runs -/

/-- What a fixed list of labels leads to, as far as each step is possible. -/
def runSteps (step : σ → ℓ → Option σ) (s : σ) : List ℓ → Option σ
  | [] => some s
  | l :: rest => (step s l).bind fun s' => runSteps step s' rest

/-- A step function that stops where a condition fails. -/
def guarded (step : σ → ℓ → Option σ) (G : σ → ℓ → Prop) [∀ s l, Decidable (G s l)] (s : σ)
    (l : ℓ) : Option σ :=
  if G s l then step s l else none

theorem guarded_eq_some {step : σ → ℓ → Option σ} {G : σ → ℓ → Prop}
    [∀ s l, Decidable (G s l)] {s s' : σ} {l : ℓ} (h : guarded step G s l = some s') :
    G s l ∧ step s l = some s' := by
  unfold guarded at h
  split at h
  · next hG => exact ⟨hG, h⟩
  · cases h

theorem Reachable.runSteps {step : σ → ℓ → Option σ} {ls : List ℓ} :
    ∀ {s s' : σ}, (∀ l ∈ ls, ∀ s s', step s l = some s' → T.step s l s') → T.Reachable s →
    runSteps step s ls = some s' → T.Reachable s' := by
  induction ls with
  | nil =>
      intro s s' _ hs h
      rw [System.runSteps] at h
      injection h with h
      rw [← h]
      exact hs
  | cons l rest ih =>
      intro s s' hT hs h
      rw [System.runSteps, Option.bind_eq_some_iff] at h
      obtain ⟨s₁, h₁, h₂⟩ := h
      exact ih (fun l hl => hT l (List.mem_cons_of_mem _ hl))
        (.step l hs (hT l List.mem_cons_self s s₁ h₁)) h₂

/-- A fixed run that falls back to where it started is a run in any case. -/
theorem Reachable.getD_runSteps {step : σ → ℓ → Option σ} {ls : List ℓ} {s : σ}
    (hs : T.Reachable s) (hT : ∀ l ∈ ls, ∀ s s', step s l = some s' → T.step s l s') :
    T.Reachable ((System.runSteps step s ls).getD s) := by
  cases h : System.runSteps step s ls with
  | none => exact hs
  | some s' => exact .runSteps hT hs h

end System

end P2PFileSharing
