import P2PFileSharing.Proofs.SharedFiles

/-!
# What becomes of a replica

`ReceiveFile` stores a push two levels below the directory that `SendFile` reads from, in
one that `LoadFileInfo` passes over. So no transfer changes what a peer can serve or knows
it has: a replica is available if and only if it already was a shared file of the peer
when the peer started.
-/

namespace P2PFileSharing

variable {me : PeerID} {t₀ t u : FileTree} {s₀ s s' : SharedFiles} {l : SharedFilesLabel}
  {f content : Str}

/-- `HasFile` finds the file, so a query for it is answered with a hit, and `SendFile` serves
these bytes. -/
structure SharedFiles.Available (me : PeerID) (s : SharedFiles) (f content : Str) : Prop where
  hasFile : s.hasFile f = true
  answers : ∀ (net : Setup) (tables : Tables) (message : Str) (id : SMessageID)
    (upstream : PeerID), net.files me = s.files → field (splitFields message) 6 = .ok f →
    ∃ o, actOnQuery net me tables message id upstream = .ok o ∧
      .relayQueryHit (createQueryHitMessage net me f id) id ∈ o.next
  serves : ∃ packets, sendFile s.tree f = some packets ∧ packets.flatten = content

/-! ## The files of the shared directory itself -/

/-- The shared directory is there, and the files in it are the same. -/
structure TopKept (t u : FileTree) : Prop where
  dir : t.node? [sharedName] = some .dir → u.node? [sharedName] = some .dir
  top : ∀ name content, u.node? [sharedName, name] = some (.file content) ↔
    t.node? [sharedName, name] = some (.file content)

theorem TopKept.refl (t : FileTree) : TopKept t t := ⟨id, fun _ _ => Iff.rfl⟩

theorem TopKept.trans {v : FileTree} (h : TopKept t u) (h' : TopKept u v) : TopKept t v :=
  ⟨fun hdir => h'.dir (h.dir hdir), fun n c => (h'.top n c).trans (h.top n c)⟩

theorem topKept_ensureDir (dir : Str) : TopKept t (ensureDir t dir) := by
  rw [ensureDir]
  split
  · exact ⟨FileTree.dir_mkdir, fun n c => FileTree.file_mkdir _⟩
  · exact .refl t

theorem topKept_setNode {p : List (List Char)} {node : FileNode} (hp : p.length = 3) :
    TopKept t (t.setNode p node) := by
  have hne : p ≠ [] := by
    intro h
    obtain rfl := h
    cases hp
  refine ⟨fun hdir => ?_, fun n c => ?_⟩
  · rw [FileTree.node?_setNode hne, if_neg, hdir]
    intro h
    obtain rfl := h
    cases hp
  · rw [FileTree.node?_setNode hne, if_neg]
    intro h
    obtain rfl := h
    cases hp

theorem topKept_writeAt {p : List (List Char)} {offset : Nat} {bytes : Str} (hp : p.length = 3) :
    TopKept t (t.writeAt p offset bytes) := by
  unfold FileTree.writeAt
  split
  · exact topKept_setNode hp
  · exact .refl t

theorem topKept_append {p : List (List Char)} {bytes : Str} (hp : p.length = 3) :
    TopKept t (t.append p bytes) := by
  unfold FileTree.append
  split
  · exact topKept_setNode hp
  · exact .refl t

/-! ## `LoadFileInfo` -/

theorem mem_insertFile {files : List Str} {entry : Str × FileNode} :
    f ∈ insertFile files entry ↔ f ∈ files ∨ ∃ content, (f, .file content) = entry := by
  obtain ⟨name, node⟩ := entry
  rw [insertFile]
  split
  · next hnew =>
      rw [List.mem_cons]
      constructor
      · intro h
        rcases h with rfl | hf
        · cases node with
          | dir => exact absurd rfl hnew.1
          | file held => exact .inr ⟨held, rfl⟩
        · exact .inl hf
      · intro h
        rcases h with hf | ⟨held, heq⟩
        · exact .inr hf
        · cases heq
          exact .inl rfl
  · next hold =>
      refine ⟨.inl, fun h => h.elim id ?_⟩
      intro h
      obtain ⟨held, heq⟩ := h
      cases heq
      by_contra hf
      refine hold ⟨nofun, ?_⟩
      rw [← Bool.not_eq_true, List.contains_iff_mem]
      exact hf

theorem mem_foldl_insertFile {entries : List (Str × FileNode)} :
    ∀ {files : List Str}, f ∈ entries.foldl insertFile files ↔
      f ∈ files ∨ ∃ content, (f, .file content) ∈ entries := by
  induction entries with
  | nil =>
      intro files
      rw [List.foldl_nil]
      exact ⟨.inl, fun h => h.elim id fun ⟨c, hc⟩ => absurd hc List.not_mem_nil⟩
  | cons entry rest ih =>
      intro files
      rw [List.foldl_cons, ih, mem_insertFile, or_assoc]
      simp only [List.mem_cons, exists_or]

theorem openDir_peerFileDir {p : List (List Char)} (h : t.openDir peerFileDir = some p) :
    p = [sharedName] ∧ t.node? [sharedName] = some .dir := by
  have hnames : pathNames (unpad '\x00' peerFileDir) = [['.'], sharedName] := by decide
  have hplace : t.place peerFileDir = some [sharedName] := by
    rw [FileTree.place, hnames, FileTree.resolve_stay (.inr rfl),
      FileTree.resolve_last isName_sharedName]
    rfl
  rw [FileTree.openDir, hplace] at h
  dsimp only at h
  split at h
  · next hdir => exact ⟨(Option.some.inj h).symm, hdir⟩
  · cases h

theorem loadFileInfo_spec {files files' : List Str} (h : loadFileInfo t files = some (u, files')) :
    TopKept t u ∧ u.node? [sharedName] = some .dir ∧ ∀ name, name ∈ files' ↔
      name ∈ files ∨ ∃ content, u.node? [sharedName, name] = some (.file content) := by
  rw [loadFileInfo] at h
  split at h
  · next p hopen =>
      obtain ⟨rfl, hdir⟩ := openDir_peerFileDir hopen
      cases h
      refine ⟨topKept_ensureDir _, hdir, fun name => ?_⟩
      rw [mem_foldl_insertFile]
      simp only [FileTree.mem_readDir]
      rfl
  · cases h

/-! ## Runs -/

/-- What no transfer changes: the files of the shared directory and what is recorded of them.
What comes in goes deeper, and under the name of a file. -/
structure SharedFiles.Unchanged (s₀ s : SharedFiles) : Prop where
  dir : s.tree.node? [sharedName] = some .dir
  top : TopKept s₀.tree s.tree
  files : ∀ name, name ∈ s.files ↔
    ∃ content, s₀.tree.node? [sharedName, name] = some (.file content)
  deep : ∀ x ∈ s.incoming, ∀ p, x.out = some p → p.length = 3
  named : ∀ x ∈ s.incoming, x.receiver = .receiveFile → x.out.isSome →
    IsEntryName x.filename ∧ FileTree.IsName x.filename
  stored : ∀ e ∈ s.stored, IsEntryName e.1 ∧ FileTree.IsName e.1

theorem unchanged_opened {receiver : Receiver} {n : Int}
    {out : Option (List (List Char) × FileTree)} (h : s₀.Unchanged s)
    (hout : ∀ p u, out = some (p, u) → p.length = 3 ∧ (∃ node, u = t.setNode p node) ∧
      (receiver = .receiveFile → IsEntryName f ∧ FileTree.IsName f))
    (ht : TopKept s.tree t) :
    s₀.Unchanged ({ s with obtainNum := n }.opened receiver f t out) := by
  have hstream {x y : Incoming} (hx : x ∈ s.incoming ++ [y]) : x ∈ s.incoming ∨ x = y :=
    (List.mem_append.mp hx).imp_right List.mem_singleton.mp
  cases hcase : out with
  | none =>
      refine ⟨ht.dir h.dir, h.top.trans ht, h.files, ?_, ?_, h.stored⟩
      · intro x hx
        rcases hstream hx with hx | rfl
        · exact h.deep x hx
        · exact nofun
      · intro x hx
        rcases hstream hx with hx | rfl
        · exact h.named x hx
        · exact fun _ => nofun
  | some opened =>
      obtain ⟨p, u⟩ := opened
      obtain ⟨hp, ⟨node, rfl⟩, hname⟩ := hout p u hcase
      have hu : TopKept s.tree (t.setNode p node) := ht.trans (topKept_setNode hp)
      refine ⟨hu.dir h.dir, h.top.trans hu, h.files, ?_, ?_, h.stored⟩
      · intro x hx q hq
        rcases hstream hx with hx | rfl
        · exact h.deep x hx q hq
        · cases hq
          exact hp
      · intro x hx hr
        rcases hstream hx with hx | rfl
        · exact h.named x hx hr
        · exact fun _ => hname hr

theorem unchanged_write {i : Nat} {x : Incoming} {bytes : Str} (h : s₀.Unchanged s)
    (hx : x ∈ s.incoming) (ht : TopKept s.tree t) :
    s₀.Unchanged { s with
      tree := t, incoming := s.incoming.set i { x with bytes := x.bytes ++ bytes } } := by
  refine ⟨ht.dir h.dir, h.top.trans ht, h.files, ?_, ?_, h.stored⟩
  · intro y hy
    rcases List.mem_or_eq_of_mem_set hy with hy | rfl
    · exact h.deep y hy
    · exact h.deep x hx
  · intro y hy
    rcases List.mem_or_eq_of_mem_set hy with hy | rfl
    · exact h.named y hy
    · exact h.named x hx

theorem unchanged_step (h : s₀.Unchanged s) (hstep : sharedFilesStep me s l = some s') :
    s₀.Unchanged s' := by
  cases l with
  | start receiver filename =>
      rw [sharedFilesStep] at hstep
      split at hstep
      · next hentry =>
          have hdir : TopKept s.tree (ensureDir s.tree (receiveDir me)) := topKept_ensureDir _
          cases receiver with
          | receiveFile =>
              cases hstep
              refine unchanged_opened (n := s.obtainNum) h ?_ hdir
              intro p u hout
              obtain ⟨hplace, hnode, hu⟩ := FileTree.openTrunc_spec hout
              obtain ⟨rfl, hname⟩ := place_receivePath hentry hplace hnode
              exact ⟨rfl, ⟨_, hu⟩, fun _ => ⟨hentry, hname⟩⟩
          | handleObtainResponse =>
              cases hstep
              refine unchanged_opened h ?_ hdir
              intro p u hout
              obtain ⟨hplace, -, held, hu⟩ := FileTree.openAppend_spec hout
              obtain ⟨name, rfl⟩ := place_obtainPath hentry hplace
              exact ⟨rfl, ⟨_, hu⟩, nofun⟩
      · cases hstep
  | write i bytes =>
      dsimp only [sharedFilesStep] at hstep
      split at hstep
      · cases hstep
      · next x hi =>
          cases hstep
          have hx : x ∈ s.incoming := List.mem_of_getElem? hi
          refine unchanged_write h hx ?_
          split
          · exact .refl _
          · next p hout _ => exact topKept_writeAt (h.deep x hx p hout)
          · next p hout _ => exact topKept_append (h.deep x hx p hout)
  | finish i =>
      dsimp only [sharedFilesStep] at hstep
      split at hstep
      · cases hstep
      · next x hi =>
          cases hstep
          have hx : x ∈ s.incoming := List.mem_of_getElem? hi
          refine ⟨h.dir, h.top, h.files, fun y hy => h.deep y (List.mem_of_mem_eraseIdx hy),
            fun y hy => h.named y (List.mem_of_mem_eraseIdx hy), ?_⟩
          intro e he
          dsimp only at he
          split at he
          · next hdone =>
              rcases List.mem_append.mp he with he | he
              · exact h.stored e he
              · rw [List.mem_singleton.mp he]
                exact h.named x hx hdone.1 hdone.2
          · exact h.stored e he
  | refresh =>
      rw [sharedFilesStep] at hstep
      split at hstep
      · split at hstep
        · next tree files hload =>
            cases hstep
            obtain ⟨htree, hdir, hfiles⟩ := loadFileInfo_spec hload
            refine ⟨hdir, h.top.trans htree, fun name => ?_, h.deep, h.named, h.stored⟩
            rw [hfiles, h.files]
            simp only [(h.top.trans htree).top, or_self]
        · cases hstep
      · cases hstep
        exact h

theorem unchanged_start (h : startSharedFiles t₀ = some s₀) : s₀.Unchanged s₀ := by
  rw [startSharedFiles] at h
  split at h
  · next tree files hload =>
      cases h
      obtain ⟨-, hdir, hfiles⟩ := loadFileInfo_spec hload
      refine ⟨hdir, .refl _, fun name => ?_, nofun, nofun, nofun⟩
      rw [hfiles]
      exact ⟨fun h => h.elim nofun id, .inr⟩
  · cases h

theorem reachable_unchanged (h₀ : startSharedFiles t₀ = some s₀)
    (h : (sharedFiles me t₀).Reachable s) : s₀.Unchanged s := by
  refine h.invariant ?_ ?_
  · intro s hs
    have heq : s₀ = s := Option.some.inj (h₀.symm.trans hs)
    rw [← heq]
    exact unchanged_start h₀
  · rintro s l s' - hs hstep
    exact unchanged_step hs hstep

theorem lookup_sharedPath (hdir : t.node? [sharedName] = some .dir) (hf : IsEntryName f)
    (hname : FileTree.IsName f) : t.lookup (sharedPath f) = t.node? [sharedName, f] := by
  rw [FileTree.lookup, place_sharedPath hdir hf hname]
  rfl

/-- A stored replica is available if and only if the peer had that very file when it started,
however the transfers and the refreshes went. -/
theorem replica_available_iff (h₀ : startSharedFiles t₀ = some s₀)
    (h : (sharedFiles me t₀).Reachable s) (hstored : (f, content) ∈ s.stored) :
    s.Available me f content ↔ s₀.tree.readFile (sharedPath f) = some content := by
  have hs := reachable_unchanged h₀ h
  obtain ⟨hf, hname⟩ := hs.stored _ hstored
  have hlook := lookup_sharedPath hs.dir hf hname
  have hlook₀ := lookup_sharedPath (unchanged_start h₀).dir hf hname
  have hfile : s.hasFile f = true ↔
      ∃ content, s₀.tree.node? [sharedName, f] = some (.file content) := by
    rw [SharedFiles.hasFile, List.contains_iff_mem]
    exact hs.files f
  have hsend {held : Str} (hheld : s₀.tree.node? [sharedName, f] = some (.file held)) :
      sendFile s.tree f = some (freads held) := by
    rw [sendFile, readShared, hlook, (hs.top.top f held).mpr hheld]
  rw [FileTree.readFile, hlook₀]
  constructor
  · intro hav
    obtain ⟨held, hheld⟩ := hfile.mp hav.hasFile
    obtain ⟨packets, hpackets, hflat⟩ := hav.serves
    rw [hsend hheld] at hpackets
    rw [hheld, ← hflat, ← Option.some.inj hpackets, flatten_freads]
  · intro hread
    have hheld : s₀.tree.node? [sharedName, f] = some (.file content) := by
      split at hread
      · next held hnode =>
          cases hread
          exact hnode
      · cases hread
    have hhas := hfile.mpr ⟨content, hheld⟩
    refine ⟨hhas, ?_, _, hsend hheld, flatten_freads content⟩
    intro net tables message id upstream hnet hfield
    have hnetFile : net.hasFile me f = true := by
      rw [Setup.hasFile, hnet]
      exact hhas
    have hact : actOnQuery net me tables message id upstream = .ok
        { tables := tables
          next := [.relayQueryHit (createQueryHitMessage net me f id) id]
          events := [.acted .query id, .answered id (createQueryHitMessage net me f id)] } := by
      rw [actOnQuery, hfield]
      exact if_pos hnetFile
    exact ⟨_, hact, List.mem_singleton.mpr rfl⟩

/-- A peer in some directory, after some steps. -/
def sharedFilesRun (t : FileTree) (ls : List SharedFilesLabel) : SharedFiles :=
  ((startSharedFiles t).bind fun s => System.runSteps (sharedFilesStep 1) s ls).getD
    ⟨t, [], false, 0, [], []⟩

theorem startSharedFiles_eq (h : (startSharedFiles t).isSome) :
    startSharedFiles t = some (sharedFilesRun t []) := by
  obtain ⟨s, hs⟩ := Option.isSome_iff_exists.mp h
  rw [sharedFilesRun, hs]
  rfl

theorem reachable_sharedFilesRun {ls : List SharedFilesLabel} (h : (startSharedFiles t).isSome)
    (hls : (System.runSteps (sharedFilesStep 1) (sharedFilesRun t []) ls).isSome) :
    (sharedFiles 1 t).Reachable (sharedFilesRun t ls) := by
  obtain ⟨s, hs⟩ := Option.isSome_iff_exists.mp hls
  have hrun : sharedFilesRun t ls = s := by
    rw [sharedFilesRun, startSharedFiles_eq h, Option.bind_some, hs]
    rfl
  rw [hrun]
  exact System.Reachable.runSteps (fun l _ s s' hstep => hstep) (.init (startSharedFiles_eq h)) hs

/-- A push of the file `a`, and a refresh. -/
def onePush : List SharedFilesLabel :=
  [.start .receiveFile ['a'], .write 0 "hi".toList, .finish 0, .refresh]

/-- The peer has the file already. -/
def oneFileDirectory : FileTree := newDirectory.setNode [sharedName, ['a']] (.file "hi".toList)

theorem replica_available_iff_oneFile :
    (sharedFilesRun oneFileDirectory onePush).Available 1 ['a'] "hi".toList :=
  (replica_available_iff (startSharedFiles_eq (by decide))
    (reachable_sharedFilesRun (by decide) (by decide)) (by decide)).mpr (by decide)

/-- The peer does not have the file, and does not come to have it. -/
theorem replica_unavailable :
    (sharedFiles 1 newDirectory).Reachable (sharedFilesRun newDirectory onePush) ∧
      (['a'], "hi".toList) ∈ (sharedFilesRun newDirectory onePush).stored ∧
      (sharedFilesRun newDirectory onePush).tree.readFile (receivePath 1 ['a']) =
        some "hi".toList ∧
      ¬(sharedFilesRun newDirectory onePush).Available 1 ['a'] "hi".toList := by
  refine ⟨reachable_sharedFilesRun (by decide) (by decide), by decide, by decide, ?_⟩
  intro h
  exact absurd h.hasFile (by decide)

end P2PFileSharing
