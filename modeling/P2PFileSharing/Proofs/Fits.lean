import P2PFileSharing.Model.ByteNetwork
import P2PFileSharing.Proofs.Rest

/-!
# Every message of a run fits a frame

The names a network starts with and those that are typed have a bound, and so have the numbers
of each machine type. Handlers copy names from message to message and make no new ones, so a
message never outgrows its frame and never contains the filling.
-/

namespace P2PFileSharing

/-- The texts that a request carries fit; its other arguments are printed `int`s. -/
def Request.Fits : Request → Prop
  | .query f | .invQuery f _ => FitsName f
  | .conTestQuery _ => True
  | .conTestObtain _ variant => FitsName (natToString variant)

def Hit.Fits (h : Hit) : Prop := FitsName h.ip ∧ ∀ f, h.kind = .query f → FitsName f

def Message.Fits : Message → Prop
  | .query x => x.request.Fits
  | .hit h => h.Fits

/-- The names that a task carries fit. -/
def Task.Fits : Task → Prop
  | .sendQuery _ f _ | .sendInvQuery _ f _ => FitsName f
  | .cacheOwn x _ | .broadcastOwn x _ | .handleQuery x | .cacheQuery x | .act x | .relay x
  | .lockSendBuffer x _ | .sendTo _ x => x.request.Fits
  | .handleHit h | .relayHit h => h.Fits
  | _ => True

/-- Every command so far fits. -/
def Flood.CommandsFit (s : Flood) : Prop := ∀ p cmd, (p, .command cmd) ∈ s.log → cmd.Fits

/-! ## Texts -/

/-- Joining adds only delimiters. -/
theorem mem_joinFields {c : Char} (hc : c ≠ '\n') {v : List Str} (h : c ∈ joinFields v) :
    ∃ s ∈ v, c ∈ s := by
  induction v with
  | nil => cases h
  | cons s rest ih =>
      cases rest with
      | nil => exact ⟨s, List.mem_cons_self, h⟩
      | cons s' rest =>
          have h : c ∈ s ++ ['\n'] ++ joinFields (s' :: rest) := h
          rcases List.mem_append.mp h with h | h
          · rcases List.mem_append.mp h with h | h
            · exact ⟨s, List.mem_cons_self, h⟩
            · exact absurd (List.mem_singleton.mp h) hc
          · obtain ⟨x, hx, hcx⟩ := ih h
            exact ⟨x, List.mem_cons_of_mem _ hx, hcx⟩

/-- The head of a message is short and without the filling. -/
theorem head_fits {type : Str} (htype : FitsName type) {id : SMessageID} (hid : id.Valid)
    {timeToLive : Int} (httl : IsInt timeToLive) {sender : PeerID} (hsender : IsInt sender)
    {args : List Str} (hargs : ∀ s ∈ args, FitsName s) (hcount : args.length ≤ 2) :
    (joinFields (headFields type id timeToLive sender ++ args)).length < msgBufSize ∧
      '\x00' ∉ joinFields (headFields type id timeToLive sender ++ args) := by
  constructor
  · have h₁ := length_intToString_int hid.1
    have h₂ := length_natToString_counter hid.2.1
    have h₃ := length_intToString_int64 hid.2.2
    have h₄ := length_intToString_int httl
    have h₅ := length_intToString_int hsender
    have hsum : (args.map fun s => s.length + 1).sum ≤ 256 * args.length := by
      rw [Nat.mul_comm, ← smul_eq_mul, ← List.length_map (fun s : Str => s.length + 1)]
      refine List.sum_le_card_nsmul _ _ fun n hn => ?_
      obtain ⟨s, hs, rfl⟩ := List.mem_map.mp hn
      have := (hargs s hs).1
      omega
    have hle := length_joinFields_le (headFields type id timeToLive sender ++ args)
    rw [List.map_append, List.sum_append] at hle
    simp only [headFields, List.map_cons, List.map_nil, List.sum_cons, List.sum_nil] at hle
    have htype := htype.1
    show (joinFields _).length < 1024
    simp only [headFields]
    omega
  · intro h
    obtain ⟨s, hs, h⟩ := mem_joinFields (by decide) h
    rcases List.mem_append.mp hs with hs | hs
    · simp only [headFields, List.mem_cons, List.not_mem_nil, or_false] at hs
      rcases hs with heq | rfl | rfl | rfl | rfl | rfl
      · rw [heq] at h
        exact htype.2 h
      · exact notMem_intToString (by decide) (by decide) _ h
      · exact notMem_natToString (by decide) _ h
      · exact notMem_intToString (by decide) (by decide) _ h
      · exact notMem_intToString (by decide) (by decide) _ h
      · exact notMem_intToString (by decide) (by decide) _ h
    · exact (hargs s hs).2 h

theorem fitsName_natToString {n k : Nat} (hk : 0 < k) (hle : k ≤ 255) (h : n < 10 ^ k) :
    FitsName (natToString n) :=
  ⟨(length_natToString hk h).trans hle, notMem_natToString (by decide) n⟩

theorem fitsName_intToString {n : Int} (h : IsInt n) : FitsName (intToString n) :=
  ⟨(length_intToString_int h).trans (by decide), notMem_intToString (by decide) (by decide) n⟩

theorem fitsName_requestType (r : Request) : FitsName r.type := by
  cases r with
  | query => exact (by decide : FitsName peerMsgQuery)
  | invQuery => exact (by decide : FitsName peerMsgInvQuery)
  | conTestQuery => exact (by decide : FitsName peerMsgConTestQuery)
  | conTestObtain => exact (by decide : FitsName peerMsgTestObtain2)

theorem fitsName_hitType (k : HitKind) : FitsName k.type := by
  cases k with
  | query => exact (by decide : FitsName peerMsgQueryHit)
  | invQuery => exact (by decide : FitsName peerMsgInvQueryHit)

/-- **A message whose names fit can be sent.** -/
theorem Message.sendable_text {m : Message} (hv : m.Valid) (hf : m.Fits) : Sendable m.text := by
  refine ⟨m.text_ne_nil, ?_⟩
  cases m with
  | query x =>
      obtain ⟨hid, httl, hsender, hrequest⟩ := hv
      refine And.symm (head_fits (fitsName_requestType _) hid httl.isInt hsender ?_ ?_)
      · intro s hs
        have hf : x.request.Fits := hf
        cases hreq : x.request with
        | query f =>
            rw [hreq] at hs hf
            rw [List.mem_singleton.mp hs]
            exact hf
        | invQuery f k =>
            rw [hreq] at hs hf hrequest
            simp only [Request.args, List.mem_cons, List.not_mem_nil, or_false] at hs
            rcases hs with rfl | rfl
            · exact hf
            · exact fitsName_intToString hrequest.2.isInt
        | conTestQuery n =>
            rw [hreq] at hs hrequest
            rw [List.mem_singleton.mp hs]
            exact fitsName_intToString hrequest
        | conTestObtain n v =>
            rw [hreq] at hs hf hrequest
            simp only [Request.args, List.mem_cons, List.not_mem_nil, or_false] at hs
            rcases hs with rfl | rfl
            · exact fitsName_intToString hrequest
            · exact hf
      · cases x.request <;> simp [Request.args]
  | hit h =>
      obtain ⟨hid, httl, hsender, -, -⟩ := hv
      refine And.symm (head_fits (fitsName_hitType _) hid httl.isInt hsender ?_ ?_)
      · intro s hs
        rcases List.mem_cons.mp hs with rfl | hs
        · exact hf.1
        · cases hkind : h.kind with
          | query f =>
              rw [hkind] at hs
              rw [List.mem_singleton.mp hs]
              exact hf.2 f hkind
          | invQuery =>
              rw [hkind] at hs
              cases hs
      · cases h.kind <;> simp [HitKind.args]

/-! ## The tasks of a run -/

section Tasks

variable {net : Setup} {s s' : Flood} {p q : PeerID} {th : Thread} {now : Int} {t : Tables}
  {task task' : Task} {rest : Multiset Work} {e : Effect}

theorem Flood.CommandsFit.back (h : s'.CommandsFit) (hg : Grows s s') : s.CommandsFit :=
  fun p cmd hmem => h p cmd (hg.mem hmem)

theorem testTasks_fit (hfits : net.Fits)
    (h : task ∈ testQueryTasks net p ∨ task ∈ testObtainTasks net p ∨
      task ∈ testObtainLargeTasks net p) : task.Fits := by
  rcases h with h | h | h
  · rcases List.mem_append.mp h with h | h
    · obtain ⟨i, hi, rfl⟩ := List.mem_map.mp h
      have hlt : i < 10000 := List.mem_range.mp hi
      exact fitsName_natToString (by decide : 0 < 4) (by decide) hlt
    · rw [List.mem_singleton.mp h]
      exact hfits.ensure p
  · rw [List.eq_of_mem_replicate h]
    exact hfits.ensure p
  · rw [List.eq_of_mem_replicate h]
    exact hfits.large p

/-- The initiator of a test takes part in it. -/
theorem test_of_create {test : TestCommand} {n : Int} (ht : TestTask net p task')
    (h : perform net p now t (.createTest test n) = some e) (hmem : task' ∈ e.here) :
    task' ∈ test.ownTasks net p := by
  simp only [perform, create] at h
  split at h
  · injection h with h
    subst h
    simp only [Effect.here, List.map_nil, List.append_nil, List.mem_cons] at hmem
    rcases hmem with rfl | hmem
    · cases ht
    · exact hmem
  · cases h

theorem started_fits (hfits : net.Fits) {log : List (PeerID × Event Message)}
    (hlog : ∀ p cmd, (p, .command cmd) ∈ log → cmd.Fits) (h : Started net log p task) :
    task.Fits := by
  cases h with
  | startUp => trivial
  | command cmd h hmem =>
      have hcmd := hlog p cmd hmem
      cases cmd with
      | query f | obtain f | invQuery f =>
          rw [List.mem_singleton.mp h]
          exact hcmd
      | replicate f =>
          rw [(mem_replicateTasks h).1]
          exact hcmd
      | testQuery => exact testTasks_fit hfits (.inl h)
      | testObtain => exact testTasks_fit hfits (.inr (.inl h))
      | concurrent test n =>
          rw [List.mem_singleton.mp h]
          trivial
  | mantain t now h =>
      unfold mantainTasks at h
      split at h
      · cases h
      · simp only [List.mem_cons, List.not_mem_nil, or_false] at h
        rcases h with rfl | rfl | rfl <;> trivial

theorem creates_fits {r : Request} {wait : Option Str} (h : Creates net p task r wait)
    (hf : task.Fits) : r.Fits := by
  cases h with
  | query | invQuery => exact hf
  | test test n => cases test <;> simp only [TestCommand.request, Request.Fits] <;> decide

theorem fits_of_leads (hfits : net.Fits) (hr : RunStep net s p th now task rest e)
    (hmem : task' ∈ e.here) (hf : task.Fits) : task'.Fits := by
  have hl := perform_leads hr.perform task' hmem
  cases hl with
  | replicate f hR hfile hnew => exact hfits.files p f hfile
  | create hc hlimit => exact creates_fits hc hf
  | ownTest test n ht =>
      have hown := test_of_create ht hr.perform hmem
      cases test with
      | concurrentTestQuery => exact testTasks_fit hfits (.inl hown)
      | testObtain2 => exact testTasks_fit hfits (.inr (.inl hown))
      | testObtain3 => exact testTasks_fit hfits (.inr (.inr hown))
  | test x ht =>
      have hperform := hr.perform
      simp only [perform, Option.some.injEq] at hperform
      subst hperform
      have htest := test_of_act ht hmem
      unfold testTasks at htest
      split at htest
      · split at htest
        · exact testTasks_fit hfits (.inl htest)
        · cases htest
      · split at htest
        · split at htest
          · exact testTasks_fit hfits (.inr (.inl htest))
          · exact testTasks_fit hfits (.inr (.inr htest))
        · cases htest
      · cases htest
  | answer x kind ha =>
      refine ⟨hfits.ip p, fun f hk => ?_⟩
      have hf : x.request.Fits := hf
      generalize x.request = r at hf ha
      cases ha with
      | query g hg =>
          cases hk
          exact hf
      | invQuery => cases hk
  | queueRelayed x y hy =>
      have hf : x.request.Fits := hf
      unfold Query.relayed at hy
      split at hy
      · cases hy
      · injection hy with hy
        subst hy
        show x.request.decrease.Fits
        generalize x.request = r at hf
        cases r <;> exact hf
  | earlyReturn | wait | unlock | home | lookUp | transfer => trivial
  | _ => exact hf

/-- **Every name in a run fits**, if those that came from outside do. -/
theorem reachable_fits (hfits : net.Fits) (h : (flood net).Reachable s)
    (hcmd : s.CommandsFit) : ∀ w ∈ s.work, w.task.Fits := by
  have hall := tasks_rule (I := fun s _ task => s.CommandsFit → task.Fits) (any_run net) ?_ ?_ ?_
    h trivial
  · exact fun w hw => hall w hw hcmd
  · exact fun s p task hstart hcmd => started_fits hfits hcmd hstart
  · exact fun s s' p task hg _ hf hcmd => hf (hcmd.back hg)
  · intro s p th now task rest e _ _ _ hr hf
    refine ⟨fun task' hmem _ hcmd => fits_of_leads hfits hr hmem (hf (hcmd.back hr.grows)), ?_⟩
    intro q m _ hl hcmd
    have hf := hf (hcmd.back hr.grows)
    cases hl with
    | query | hit => exact hf

/-- So every message that is sent can be. -/
theorem sent_sendable (hfits : net.Fits) (h : (flood net).Reachable s) (hcmd : s.CommandsFit)
    (hr : RunStep net s p th now task rest e) {x : PeerID × Message} (hx : x ∈ e.sent) :
    Sendable x.2.text := by
  have hf := reachable_fits hfits h hcmd _ hr.mem
  have hv := (reachable_valid h).work _ hr.mem
  have hsend := perform_sends hr.perform x hx
  refine Message.sendable_text (sends_valid hsend hv) ?_
  obtain ⟨q, m⟩ := x
  cases hsend with
  | query | hit => exact hf

end Tasks

end P2PFileSharing
