import P2PFileSharing.Lib.Runs

/-!
# Progress: ranks, bags of work, and liveness through a simulation

A rank need not be a function of the state. It is enough that a state is related to some
value, that a step relates the next state to a smaller one, and that the order is well founded:
then what the order cannot go below is what every run comes to.

A bag of work runs out when whatever is done leads only to work that rates lower, no matter how
much of it there is: bags are ordered by taking one thing out and putting any number of lower
ones in, and that order is well founded. The ratings may come to be known as the run goes on,
as long as what waits keeps the rating it has.

A system that takes several small steps for one step of another, or none, still comes to what
the other one comes to, as long as the small steps run out. That is how a liveness result about
a coarse model is carried down to a fine one.
-/

namespace P2PFileSharing

namespace System

variable {σ τ ℓ κ ω ρ : Type} {T : System σ ℓ} {U : System τ κ} {R : σ → τ → Prop}

/-- **The ranking rule.** -/
theorem inevitable_of_rank {P : σ → Prop} {lower : τ → τ → Prop} (hwf : WellFounded lower)
    (hgo : ∀ s a, R s a → ¬P s → ∃ l s', T.step s l s')
    (hstep : ∀ s a l s', R s a → ¬P s → T.step s l s' → ∃ a', R s' a' ∧ lower a' a) :
    ∀ a s, R s a → T.Inevitable P s := by
  intro a
  induction a using hwf.induction with
  | h a ih =>
      intro s hR
      by_cases hP : P s
      · exact .now hP
      · refine .later (hgo s a hR hP) ?_
        intro l s' hl
        obtain ⟨a', hR', hlower⟩ := hstep s a l s' hR hP hl
        exact ih a' hlower s' hR'

/-- What a system keeps, it has when it comes to where it has to come to. -/
theorem Inevitable.along {P J : σ → Prop} (hJ : ∀ s l s', J s → T.step s l s' → J s') {s : σ}
    (h : T.Inevitable P s) (hs : J s) : T.Inevitable (fun s => J s ∧ P s) s := by
  induction h with
  | now hP => exact .now ⟨hs, hP⟩
  | later hgo _ ih => exact .later hgo fun l s' hl => ih l s' hl (hJ _ l s' hs hl)

/-! ## A bag of work -/

/-- One thing is taken out of the bag: what comes into it rates lower, and the rest of the bag
keeps its ratings. -/
def Spends (lower : ρ → ρ → Prop) (rates rates' : ω → ρ → Prop) (work work' : Multiset ω) :
    Prop :=
  ∃ w rest new, work = w ::ₘ rest ∧ work' = rest + new ∧
    (∀ w' ∈ rest, ∀ r, rates w' r → rates' w' r) ∧
    ∀ r, rates w r → ∀ w' ∈ new, ∃ r', rates' w' r' ∧ lower r' r

theorem exists_ratings {rates : ω → ρ → Prop} {work : Multiset ω}
    (h : ∀ w ∈ work, ∃ r, rates w r) : ∃ b, Multiset.Rel rates work b := by
  induction work using Multiset.induction_on with
  | empty => exact ⟨0, .zero⟩
  | cons w work ih =>
      obtain ⟨r, hr⟩ := h w (Multiset.mem_cons_self w work)
      obtain ⟨b, hb⟩ := ih fun w' hw' => h w' (Multiset.mem_cons_of_mem hw')
      exact ⟨r ::ₘ b, .cons hr hb⟩

theorem Spends.lowers {lower : ρ → ρ → Prop} {rates rates' : ω → ρ → Prop}
    {work work' : Multiset ω} (h : Spends lower rates rates' work work') {b : Multiset ρ}
    (hb : Multiset.Rel rates work b) :
    ∃ b', Multiset.Rel rates' work' b' ∧ Relation.CutExpand lower b' b := by
  obtain ⟨w, rest, new, rfl, rfl, hrest, hnew⟩ := h
  obtain ⟨r, c, hr, hc, rfl⟩ := Multiset.rel_cons_left.mp hb
  obtain ⟨b', hb'⟩ := exists_ratings (hnew r hr)
  refine ⟨c + b', .add (hc.mono fun w' hw' r _ h => hrest w' hw' r h)
    (hb'.mono fun _ _ _ _ h => h.1), b', r, ?_, ?_⟩
  · intro r' hr'
    obtain ⟨w', -, -, hlower⟩ := Multiset.exists_mem_of_rel_of_mem
      (Multiset.rel_flip.mpr hb') hr'
    exact hlower
  · rw [← Multiset.singleton_add r c, Multiset.add_comm, Multiset.add_assoc]

/-- **The rule for a bag of work**, found in a state of a second system. -/
theorem inevitable_of_bag {P : σ → Prop} (work : τ → Multiset ω) (rates : τ → ω → ρ → Prop)
    {lower : ρ → ρ → Prop} (hwf : WellFounded lower)
    (hgo : ∀ s a, R s a → ¬P s → ∃ l s', T.step s l s')
    (hstep : ∀ s a l s', R s a → ¬P s → T.step s l s' →
      ∃ a', R s' a' ∧ Spends lower (rates a) (rates a') (work a) (work a'))
    {s : σ} {a : τ} (hR : R s a) (hrates : ∀ w ∈ work a, ∃ r, rates a w r) :
    T.Inevitable P s := by
  obtain ⟨b, hb⟩ := exists_ratings hrates
  refine inevitable_of_rank (R := fun s b => ∃ a, R s a ∧ Multiset.Rel (rates a) (work a) b)
    hwf.cutExpand ?_ ?_ b s ⟨a, hR, hb⟩
  · intro s b h hP
    obtain ⟨a, hR, -⟩ := h
    exact hgo s a hR hP
  · intro s b l s' h hP hl
    obtain ⟨a, hR, hb⟩ := h
    obtain ⟨a', hR', hspends⟩ := hstep s a l s' hR hP hl
    obtain ⟨b', hb', hlower⟩ := hspends.lowers hb
    exact ⟨b', ⟨a', hR', hb'⟩, hlower⟩

/-! ## Simulation with any number of steps -/

theorem Steps.one {s s' : σ} {l : ℓ} (h : T.step s l s') : T.Steps s s' := .tail l (.refl s) h

/-- Forward simulation where a step of the one system is any number of steps of the other. -/
theorem Reachable.simulate (hinit : ∀ s, T.init s → ∃ a, U.init a ∧ R s a)
    (hstep : ∀ s a l s', T.Reachable s → U.Reachable a → R s a → T.step s l s' →
      ∃ a', U.Steps a a' ∧ R s' a')
    {s : σ} (h : T.Reachable s) : ∃ a, U.Reachable a ∧ R s a := by
  induction h with
  | init h0 =>
      obtain ⟨a, ha, hR⟩ := hinit _ h0
      exact ⟨a, .init ha, hR⟩
  | step l hs hl ih =>
      obtain ⟨a, ha, hR⟩ := ih
      obtain ⟨a', hsteps, hR'⟩ := hstep _ a l _ hs ha hR hl
      exact ⟨a', ha.steps hsteps, hR'⟩

/-- **Liveness through a simulation**: a step that the other system does not see lowers a
measure, and nobody gets stuck before the other system is where it has to come to. -/
theorem Inevitable.simulate {P : τ → Prop} (m : σ → Nat)
    (hgo : ∀ s a, R s a → ¬P a → ∃ l s', T.step s l s')
    (hstep : ∀ s a l s', R s a → ¬P a → T.step s l s' →
      (R s' a ∧ m s' < m s) ∨ ∃ k a', U.step a k a' ∧ R s' a')
    {a : τ} (h : U.Inevitable P a) : ∀ s, R s a → T.Inevitable (fun s => ∃ a, R s a ∧ P a) s := by
  induction h with
  | now hP => exact fun s hR => .now ⟨_, hR, hP⟩
  | @later a _ _ ih =>
      by_cases hP : P a
      · exact fun s hR => .now ⟨a, hR, hP⟩
      · have hbound : ∀ n s, m s < n → R s a → T.Inevitable (fun s => ∃ a, R s a ∧ P a) s := by
          intro n
          induction n with
          | zero => exact fun s hlt _ => absurd hlt (Nat.not_lt_zero _)
          | succ n ihn =>
              intro s hlt hR
              refine .later (hgo s a hR hP) ?_
              intro l s' hl
              rcases hstep s a l s' hR hP hl with ⟨hR', hless⟩ | ⟨k, a', hk, hR'⟩
              · exact ihn s' (by omega) hR'
              · exact ih k a' hk s' hR'
        exact fun s hR => hbound (m s + 1) s (Nat.lt_succ_self _) hR

end System

end P2PFileSharing
