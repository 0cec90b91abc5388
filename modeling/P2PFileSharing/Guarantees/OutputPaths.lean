import P2PFileSharing.Model.OutputPaths
import P2PFileSharing.Proofs.SharedFiles

/-!
# The output paths of downloads

The workers take numbers from `m_obtain_num` one at a time, so the path of the `k`-th download
has number `k` in it, whichever workers were at it in between. And the number can be read off the
path: its digits end at the first underscore after the directory, whatever the filename starts
with.
-/

namespace P2PFileSharing

variable {me : PeerID} {threads : Nat} {s s' : ObtainingClient} {i j : Nat}

/-! ## The number in a path -/

theorem intToString_natCast (n : Nat) : intToString n = natToString n := by
  rw [intToString, if_neg (by omega), Int.natAbs_natCast]

/-- A number, an underscore and a name: the number and the name can be told. -/
theorem numbered_name_injective {m n : Nat} {f g : Str}
    (h : intToString m ++ '_' :: f = intToString n ++ '_' :: g) : m = n ∧ f = g := by
  have hm : '_' ∉ intToString (m : Int) := notMem_intToString (by decide) (by decide) _
  have hn : '_' ∉ intToString (n : Int) := notMem_intToString (by decide) (by decide) _
  have hnumber := congrArg (List.takeWhile fun c => decide (c ≠ '_')) h
  rw [takeWhile_append_sep hm, takeWhile_append_sep hn] at hnumber
  rw [hnumber] at h
  have hname := List.append_cancel_left h
  injection hname with _ hname
  rw [intToString_natCast, intToString_natCast] at hnumber
  exact ⟨natToString_injective hnumber, hname⟩

theorem obtainPath_injective {m n : Nat} {f g : Str} (h : obtainPath me m f = obtainPath me n g) :
    m = n ∧ f = g := by
  rw [obtainPath, obtainPath, List.append_assoc, List.append_assoc] at h
  exact numbered_name_injective (List.append_cancel_left h)

/-! ## Steps -/

/-- What a step can be: a worker's own, a call of a worker that may make one, or another
step of the file client. -/
theorem obtainingStep_cases {l : ObtainingLabel} (h : obtainingStep me s l = some s') :
    (∃ i point, s.points i = some point ∧ obtainStep me s i point = some s') ∨
      (∃ i result client, s.calls i = true ∧
        fileClientStep s.client (.call i result) = some client ∧
        s' = { s.goTo i (s.afterCall i client) with client := client }) ∨
      ∃ l' client, fileClientStep s.client l' = some client ∧ s' = { s with client := client } := by
  have hother : ∀ l', (fileClientStep s.client l').map
      (fun client => { s with client := client }) = some s' →
      ∃ l' client, fileClientStep s.client l' = some client ∧ s' = { s with client := client } := by
    intro l' h
    obtain ⟨client, hstep, rfl⟩ := Option.map_eq_some_iff.mp h
    exact ⟨l', client, hstep, rfl⟩
  cases l with
  | obtain i =>
      rw [obtainingStep] at h
      split at h
      · cases h
      · next point hpoint => exact .inl ⟨i, point, hpoint, h⟩
  | client l =>
      refine .inr ?_
      cases l with
      | call i result =>
          rw [obtainingStep] at h
          split at h
          · next hcalls =>
              obtain ⟨client, hstep, rfl⟩ := Option.map_eq_some_iff.mp h
              exact .inl ⟨i, result, client, hcalls, hstep, rfl⟩
          · cases h
      | pop i =>
          rw [obtainingStep] at h
          split at h
          · exact .inr (hother _ h)
          · cases h
      | pushFile filename ip port => exact .inr (hother (.pushFile filename ip port) h)
      | obtainFile filename ip port => exact .inr (hother (.obtainFile filename ip port) h)

/-- The points at which a worker has the mutex. -/
def ObtainPoint.locked : ObtainPoint → Bool
  | .outFilePath _ | .increment _ | .unlock _ | .print => true
  | _ => false

/-- The path a worker has chosen and not closed yet. -/
def ObtainPoint.path? : ObtainPoint → Option Str
  | .increment path | .unlock path | .receive path => some path
  | _ => none

/-- The download whose number is in its path but still in `m_obtain_num`, too. -/
def ObtainPoint.taken : Option ObtainPoint → Nat
  | some (.increment _) => 1
  | _ => 0

def ObtainingClient.taken (s : ObtainingClient) : Nat :=
  match s.obtainNumMutex with
  | none => 0
  | some i => ObtainPoint.taken (s.points i)

/-- The worker is about to write, or is writing, to this path. -/
def ObtainingClient.Writes (s : ObtainingClient) (i : Nat) (path : Str) : Prop :=
  ∃ point, s.points i = some point ∧ point.path? = some path

/-- The paths are numbered as they were chosen. -/
structure ObtainingClient.InOrder (me : PeerID) (s : ObtainingClient) : Prop where
  mutex : ∀ i point, s.points i = some point → point.locked = true → s.obtainNumMutex = some i
  numbered : ∀ (k : Nat) d, s.downloads[k]? = some d →
    d.outFilePath = obtainPath me k d.filename
  counted : (s.downloads.length : Int) = s.obtainNum + s.taken
  own : ∀ i path, s.Writes i path → ∃ d ∈ s.downloads, d.worker = i ∧ d.outFilePath = path

theorem goTo_self (new : Option ObtainPoint) : (s.goTo i new).points i = new :=
  Function.update_self ..

theorem goTo_other (new : Option ObtainPoint) (hj : j ≠ i) :
    (s.goTo i new).points j = s.points j :=
  Function.update_of_ne hj ..

/-- While a worker has the mutex, or nobody has, no other worker has it. -/
theorem ObtainingClient.InOrder.others (hI : s.InOrder me)
    (hmutex : s.obtainNumMutex = none ∨ s.obtainNumMutex = some i) (hj : j ≠ i)
    {point : ObtainPoint} (hpoint : s.points j = some point) : point.locked = false := by
  rw [Bool.eq_false_iff]
  intro hlocked
  have hj' := hI.mutex j point hpoint hlocked
  rcases hmutex with hnone | hsome
  · rw [hnone] at hj'
    cases hj'
  · rw [hsome] at hj'
    exact hj (Option.some.inj hj').symm

/-- What has to be seen when one worker comes to another point: that it has the mutex if it
should, and nobody else loses it; that the numbers go on; and where its path is from. -/
theorem ObtainingClient.InOrder.move (hI : s.InOrder me) {new : Option ObtainPoint}
    (hpoints : s'.points = (s.goTo i new).points)
    (hself : ∀ point, new = some point → point.locked = true → s'.obtainNumMutex = some i)
    (hothers : s'.obtainNumMutex = s.obtainNumMutex ∨
      s.obtainNumMutex = none ∨ s.obtainNumMutex = some i)
    (hmore : ∀ d ∈ s.downloads, d ∈ s'.downloads)
    (hnumbered : ∀ (k : Nat) d, s'.downloads[k]? = some d →
      d.outFilePath = obtainPath me k d.filename)
    (hcounted : (s'.downloads.length : Int) = s'.obtainNum + s'.taken)
    (hown : ∀ point path, new = some point → point.path? = some path →
      s.Writes i path ∨ ∃ d ∈ s'.downloads, d.worker = i ∧ d.outFilePath = path) :
    s'.InOrder me := by
  have hold : ∀ {k path}, s.Writes k path →
      ∃ d ∈ s'.downloads, d.worker = k ∧ d.outFilePath = path := by
    intro k path hw
    obtain ⟨d, hd, hworker⟩ := hI.own k path hw
    exact ⟨d, hmore d hd, hworker⟩
  refine ⟨?_, hnumbered, hcounted, ?_⟩
  · intro k point hpoint hlocked
    rw [hpoints] at hpoint
    by_cases hk : k = i
    · subst hk
      rw [goTo_self] at hpoint
      exact hself point hpoint hlocked
    · rw [goTo_other new hk] at hpoint
      rcases hothers with hsame | hfree
      · rw [hsame]
        exact hI.mutex k point hpoint hlocked
      · rw [hI.others hfree hk hpoint] at hlocked
        cases hlocked
  · intro k path hwrites
    obtain ⟨point, hpoint, hpath⟩ := hwrites
    rw [hpoints] at hpoint
    by_cases hk : k = i
    · subst hk
      rw [goTo_self] at hpoint
      rcases hown point path hpoint hpath with hw | hnew
      · exact hold hw
      · exact hnew
    · rw [goTo_other new hk] at hpoint
      exact hold ⟨point, hpoint, hpath⟩

theorem taken_at (hmutex : s.obtainNumMutex = some i) {point : Option ObtainPoint}
    (hpoint : s.points i = point) : s.taken = ObtainPoint.taken point := by
  rw [ObtainingClient.taken, hmutex, ← hpoint]

theorem taken_goTo {new : Option ObtainPoint} (hold : ObtainPoint.taken (s.points i) = 0)
    (hnew : ObtainPoint.taken new = 0) : (s.goTo i new).taken = s.taken := by
  have hpoints : ∀ k, ObtainPoint.taken ((s.goTo i new).points k) =
      ObtainPoint.taken (s.points k) := by
    intro k
    by_cases hk : k = i
    · subst hk
      rw [goTo_self, hold, hnew]
    · rw [goTo_other new hk]
  simp only [ObtainingClient.taken, hpoints]
  rfl

/-- A step that leaves the number and the mutex alone. -/
theorem ObtainingClient.InOrder.keep (hI : s.InOrder me) {new : Option ObtainPoint}
    (hold : ObtainPoint.taken (s.points i) = 0)
    (hnew : ∀ point, new = some point → point.locked = false)
    (hown : ∀ point path, new = some point → point.path? = some path → s.Writes i path) :
    (s.goTo i new).InOrder me := by
  have htaken : ObtainPoint.taken new = 0 := by
    cases new with
    | none => rfl
    | some point =>
        have hfree := hnew point rfl
        cases point <;> first | rfl | cases hfree
  refine hI.move rfl ?_ (.inl rfl) (fun d hd => hd) hI.numbered ?_
    fun point path hpoint hpath => .inl (hown point path hpoint hpath)
  · intro point hpoint hlocked
    rw [hnew point hpoint] at hlocked
    cases hlocked
  · rw [taken_goTo hold htaken]
    exact hI.counted

/-- A step into a block of the mutex. -/
theorem ObtainingClient.InOrder.lock (hI : s.InOrder me) {new : ObtainPoint}
    (hfree : s.obtainNumMutex = none) (hnew : ObtainPoint.taken (some new) = 0)
    (hown : new.path? = none) :
    ({ s.goTo i (some new) with obtainNumMutex := some i } : ObtainingClient).InOrder me := by
  refine hI.move rfl (fun _ _ _ => rfl) (.inr (.inl hfree)) (fun d hd => hd) hI.numbered ?_ ?_
  · have htaken : s.taken = 0 := by
      rw [ObtainingClient.taken, hfree]
    have htaken' : ({ s.goTo i (some new) with obtainNumMutex := some i } :
        ObtainingClient).taken = 0 := by
      show ObtainPoint.taken ((s.goTo i (some new)).points i) = 0
      rw [goTo_self, hnew]
    rw [htaken', ← htaken]
    exact hI.counted
  · intro point path hpoint hpath
    rw [← Option.some.inj hpoint, hown] at hpath
    cases hpath

/-- A step out of one. -/
theorem ObtainingClient.InOrder.release (hI : s.InOrder me) {point : ObtainPoint}
    {new : Option ObtainPoint} (hpoint : s.points i = some point) (hlocked : point.locked = true)
    (hold : ObtainPoint.taken (some point) = 0)
    (hnew : ∀ point, new = some point → point.locked = false)
    (hown : ∀ point path, new = some point → point.path? = some path → s.Writes i path) :
    ({ s.goTo i new with obtainNumMutex := none } : ObtainingClient).InOrder me := by
  have hmutex := hI.mutex i point hpoint hlocked
  refine hI.move rfl ?_ (.inr (.inr hmutex)) (fun d hd => hd) hI.numbered ?_
    fun point path hpoint hpath => .inl (hown point path hpoint hpath)
  · intro point hpoint hlocked
    rw [hnew point hpoint] at hlocked
    cases hlocked
  · have htaken : s.taken = 0 := by
      rw [taken_at hmutex hpoint, hold]
    have htaken' : ({ s.goTo i new with obtainNumMutex := none } : ObtainingClient).taken = 0 := rfl
    rw [htaken', ← htaken]
    exact hI.counted

/-- The path is put together from the number that the next download has. -/
theorem inOrder_outFilePath (hI : s.InOrder me) {filename : Str}
    (hpoint : s.points i = some (.outFilePath filename))
    (h : obtainStep me s i (.outFilePath filename) = some s') : s'.InOrder me := by
  have hmutex := hI.mutex i _ hpoint rfl
  have hcounted := hI.counted
  rw [taken_at hmutex hpoint] at hcounted
  have hnum : s.obtainNum = (s.downloads.length : Nat) := by
    simpa [ObtainPoint.taken] using hcounted.symm
  rw [obtainStep] at h
  injection h with h
  obtain ⟨hpoints, hnum', hmutex', hdownloads⟩ :
      s'.points = (s.goTo i (some (.increment (obtainPath me s.obtainNum filename)))).points ∧
        s'.obtainNum = s.obtainNum ∧ s'.obtainNumMutex = s.obtainNumMutex ∧
        s'.downloads = s.downloads ++ [⟨i, filename, obtainPath me s.obtainNum filename⟩] := by
    subst h
    exact ⟨rfl, rfl, rfl, rfl⟩
  refine hI.move hpoints (fun _ _ _ => hmutex'.trans hmutex) (.inl hmutex') ?_ ?_ ?_ ?_
  · intro d hd
    rw [hdownloads]
    exact List.mem_append_left _ hd
  · intro k d hd
    rw [hdownloads, List.getElem?_append] at hd
    split at hd
    · exact hI.numbered k d hd
    · next hk =>
        obtain ⟨hlt, hd⟩ := List.getElem?_eq_some_iff.mp hd
        rw [List.length_singleton] at hlt
        have hlast : k = s.downloads.length := by omega
        rw [List.getElem_singleton] at hd
        rw [← hd, hlast, hnum]
  · rw [hdownloads, hnum', taken_at (hmutex'.trans hmutex) (by rw [hpoints, goTo_self]), hnum,
      List.length_append]
    rfl
  · intro point path hnew hpath
    rw [← Option.some.inj hnew] at hpath
    injection hpath with hpath
    rw [hdownloads]
    exact .inr ⟨_, List.mem_append_right _ (List.mem_singleton_self _), rfl, hpath⟩

/-- Then the number is moved on. -/
theorem inOrder_increment (hI : s.InOrder me) {path : Str}
    (hpoint : s.points i = some (.increment path))
    (h : obtainStep me s i (.increment path) = some s') : s'.InOrder me := by
  have hmutex := hI.mutex i _ hpoint rfl
  have hcounted := hI.counted
  rw [taken_at hmutex hpoint] at hcounted
  rw [obtainStep] at h
  split at h
  · injection h with h
    obtain ⟨hpoints, hnum', hmutex', hdownloads⟩ :
        s'.points = (s.goTo i (some (.unlock path))).points ∧ s'.obtainNum = s.obtainNum + 1 ∧
          s'.obtainNumMutex = s.obtainNumMutex ∧ s'.downloads = s.downloads := by
      subst h
      exact ⟨rfl, rfl, rfl, rfl⟩
    refine hI.move hpoints (fun _ _ _ => hmutex'.trans hmutex) (.inl hmutex') ?_ ?_ ?_ ?_
    · rw [hdownloads]
      exact fun d hd => hd
    · rw [hdownloads]
      exact hI.numbered
    · rw [hdownloads, hnum', taken_at (hmutex'.trans hmutex) (by rw [hpoints, goTo_self]), hcounted]
      simp [ObtainPoint.taken]
    · intro point path' hnew hpath
      rw [← Option.some.inj hnew] at hpath
      exact .inl ⟨_, hpoint, hpath⟩
  · cases h

theorem inOrder_obtain (hI : s.InOrder me) {point : ObtainPoint}
    (hpoint : s.points i = some point) (h : obtainStep me s i point = some s') :
    s'.InOrder me := by
  cases point with
  | opendir filename =>
      rw [obtainStep] at h
      injection h with h
      rw [← h]
      refine hI.keep (by rw [hpoint]; rfl) ?_ ?_
      · intro point hnew
        rw [← Option.some.inj hnew]
        rfl
      · intro point path hnew hpath
        rw [← Option.some.inj hnew] at hpath
        cases hpath
  | numLock filename =>
      rw [obtainStep] at h
      split at h
      · next hfree =>
          injection h with h
          rw [← h]
          exact hI.lock hfree rfl rfl
      · cases h
  | outFilePath filename => exact inOrder_outFilePath hI hpoint h
  | increment path => exact inOrder_increment hI hpoint h
  | unlock path =>
      rw [obtainStep] at h
      injection h with h
      rw [← h]
      refine hI.release hpoint rfl rfl ?_ ?_
      · intro point hnew
        rw [← Option.some.inj hnew]
        rfl
      · intro point path' hnew hpath
        rw [← Option.some.inj hnew] at hpath
        exact ⟨_, hpoint, hpath⟩
  | receive path => cases h
  | numLock2 =>
      rw [obtainStep] at h
      split at h
      · next hfree =>
          injection h with h
          rw [← h]
          exact hI.lock hfree rfl rfl
      · cases h
  | print =>
      rw [obtainStep] at h
      injection h with h
      rw [← h]
      refine hI.release hpoint rfl rfl ?_ ?_
      · intro point hnew
        cases hnew
      · intro point path hnew
        cases hnew

/-- A call leads into the function, goes round its loop or leads out of it. -/
theorem afterCall_cases (hcalls : s.calls i = true) (client : FileClient) :
    ObtainPoint.taken (s.points i) = 0 ∧
      ∀ point, s.afterCall i client = some point → point.locked = false ∧
        ∀ path, point.path? = some path → s.Writes i path := by
  rw [ObtainingClient.calls] at hcalls
  rw [ObtainingClient.afterCall]
  cases hpoint : s.points i with
  | none =>
      refine ⟨rfl, fun point hnew => ?_⟩
      split at hnew
      · rw [← Option.some.inj hnew]
        refine ⟨rfl, fun path hpath => ?_⟩
        cases hpath
      · next heq _ => cases heq
      · cases hnew
  | some x =>
      rw [hpoint] at hcalls
      cases x with
      | receive path =>
          refine ⟨rfl, fun point hnew => ?_⟩
          split at hnew
          · next heq _ => cases heq
          · rw [← Option.some.inj hnew]
            refine ⟨rfl, fun path hpath => ?_⟩
            cases hpath
          · rw [← Option.some.inj hnew]
            exact ⟨rfl, fun path' hpath => ⟨_, hpoint, hpath⟩⟩
      | _ => cases hcalls

theorem inOrder_step {l : ObtainingLabel} (hI : s.InOrder me)
    (h : obtainingStep me s l = some s') : s'.InOrder me := by
  rcases obtainingStep_cases h with ⟨i, point, hpoint, hstep⟩ |
    ⟨i, result, client, hcalls, -, rfl⟩ | ⟨l', client, -, rfl⟩
  · exact inOrder_obtain hI hpoint hstep
  · obtain ⟨hold, hnew⟩ := afterCall_cases hcalls client
    have hkept : (s.goTo i (s.afterCall i client)).InOrder me :=
      hI.keep hold (fun point hpoint => (hnew point hpoint).1)
        fun point path hpoint hpath => (hnew point hpoint).2 path hpath
    exact ⟨hkept.mutex, hkept.numbered, hkept.counted, hkept.own⟩
  · exact ⟨hI.mutex, hI.numbered, hI.counted, hI.own⟩

theorem reachable_inOrder (h : (obtainingClient me threads).Reachable s) : s.InOrder me := by
  refine h.invariant (I := fun s => s.InOrder me) ?_ fun s l s' _ ih hl => inOrder_step ih hl
  intro s hs
  subst hs
  refine ⟨?_, ?_, rfl, ?_⟩
  · intro i point hpoint
    cases hpoint
  · intro k d hd
    cases hd
  · intro i path hwrites
    obtain ⟨point, hpoint, -⟩ := hwrites
    cases hpoint

/-! ## The paths -/

/-- The downloads so far do not get in each other's way. -/
structure ObtainingClient.PathsApart (s : ObtainingClient) : Prop where
  /-- The paths of two downloads differ, -/
  paths : s.downloads.Pairwise fun d e => d.outFilePath ≠ e.outFilePath
  /-- and, since the filenames have no slash in them, lead to different files. -/
  places : s.downloads.Pairwise fun d e => '/' ∉ d.filename → '/' ∉ e.filename →
    ∀ (t u : FileTree) p q, t.place d.outFilePath = some p → u.place e.outFilePath = some q →
      p ≠ q
  /-- No two workers write to one path. -/
  writers : ∀ i j path, s.Writes i path → s.Writes j path → i = j
  /-- With fewer than 2^31 downloads the number does not overflow. -/
  bounded : ∀ i path, s.points i = some (.increment path) → s.downloads.length < 2 ^ 31 →
    IsInt (s.obtainNum + 1)

theorem place_number {t : FileTree} {p : List (List Char)} {n : Nat} {f : Str} (hf : '/' ∉ f)
    (hp : t.place (obtainPath me n f) = some p) :
    p = [sharedName, receivedName me, intToString n ++ '_' :: unpad '\x00' f] := by
  rw [← place_unpad] at hp
  have hentry : IsEntryName (unpad '\x00' f) := by
    refine ⟨fun hmem => hf ((List.takeWhile_prefix _).subset hmem), fun hmem => ?_⟩
    simpa using List.mem_takeWhile_imp hmem
  exact place_obtainPath_eq hentry hp

/-- **Concurrent downloads never share an output path.** Each has its own number. -/
theorem output_paths_apart (me : PeerID) (threads : Nat) (s : ObtainingClient)
    (h : (obtainingClient me threads).Reachable s) : s.PathsApart := by
  have hI := reachable_inOrder h
  have hpairs : ∀ {R : Download → Download → Prop},
      (∀ k l : Nat, k ≠ l → ∀ d e, d.outFilePath = obtainPath me k d.filename →
        e.outFilePath = obtainPath me l e.filename → R d e) → s.downloads.Pairwise R := by
    intro R hR
    rw [List.pairwise_iff_getElem]
    intro k l hk hl hlt
    exact hR k l (by omega) _ _ (hI.numbered k _ (List.getElem?_eq_getElem hk))
      (hI.numbered l _ (List.getElem?_eq_getElem hl))
  have hpaths : s.downloads.Pairwise fun d e => d.outFilePath ≠ e.outFilePath := by
    refine hpairs fun k l hne d e hd he heq => ?_
    rw [hd, he] at heq
    exact hne (obtainPath_injective heq).1
  refine ⟨hpaths, ?_, ?_, ?_⟩
  · refine hpairs fun k l hne d e hd he hdf hef t u p q hp hq heq => ?_
    rw [hd] at hp
    rw [he] at hq
    rw [place_number hdf hp, place_number hef hq] at heq
    injection heq with _ heq
    injection heq with _ heq
    injection heq with heq
    exact hne (numbered_name_injective heq).1
  · intro i j path hi hj
    obtain ⟨d, hd, rfl, hdpath⟩ := hI.own i path hi
    obtain ⟨e, he, rfl, hepath⟩ := hI.own j path hj
    have hnodup : (s.downloads.map Download.outFilePath).Nodup :=
      List.pairwise_map.mpr hpaths
    rw [List.inj_on_of_nodup_map hnodup hd he (hdpath.trans hepath.symm)]
  · intro i path hpoint hfew
    have hcounted := hI.counted
    rw [taken_at (hI.mutex i _ hpoint rfl) hpoint] at hcounted
    simp only [ObtainPoint.taken] at hcounted
    rw [IsInt]
    omega

/-- A run of the process with two workers, as far as it is possible. -/
def obtainingRun (ls : List ObtainingLabel) : ObtainingClient :=
  (System.runSteps (obtainingStep 1) (initialObtainingClient 2) ls).getD (initialObtainingClient 2)

theorem reachable_obtainingRun (ls : List ObtainingLabel) :
    (obtainingClient 1 2).Reachable (obtainingRun ls) :=
  .getD_runSteps (.init rfl) fun _ _ _ _ h => h

/-- A worker gets to `HandleObtainResponse`. -/
def ObtainingLabel.request (i fd : Nat) : List ObtainingLabel :=
  [.pop i, .call i (.descriptor fd), .call i .done, .call i (.connected true),
    .call i (.bytes 512)].map .client

/-- A worker's next steps of its own. -/
def ObtainingLabel.turns (i n : Nat) : List ObtainingLabel := List.replicate n (.obtain i)

/-- Two workers, and filenames of which one starts with a number and an underscore; the second
worker can only go on when the first has let go of the mutex. -/
def twoObtain : List ObtainingLabel :=
  ["1_x".toList, "x".toList].map (fun f => .client (.obtainFile f "h".toList 9)) ++
    (ObtainingLabel.request 0 3 ++ (ObtainingLabel.request 1 4 ++ (ObtainingLabel.turns 0 2 ++
      (ObtainingLabel.turns 1 1 ++ (ObtainingLabel.turns 0 3 ++ ObtainingLabel.turns 1 4)))))

theorem output_paths_apart_twoObtain :
    (obtainingRun twoObtain).downloads =
        [⟨0, "1_x".toList, "./shared_files/received1/0_1_x".toList⟩,
          ⟨1, "x".toList, "./shared_files/received1/1_x".toList⟩] ∧
      (obtainingRun twoObtain).PathsApart :=
  ⟨by decide +kernel, output_paths_apart 1 2 _ (reachable_obtainingRun twoObtain)⟩

end P2PFileSharing
