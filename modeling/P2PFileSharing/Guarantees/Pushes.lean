import P2PFileSharing.Model.Pushes
import P2PFileSharing.Proofs.FileTransfer

/-!
# What two pushes of one filename leave behind

The stored file is the content of one of the two as long as the other spares it: it neither
empties the file after the first bytes of that one, nor writes over them, nor past its end.
Two streams that write to one file at offsets of their own give no such promise. A long
content under a short one is left as a mixture of both.
-/

namespace P2PFileSharing

variable {me : PeerID} {filename : Str} {contents : Worker → Str} {t u : FileTree} {w v : Worker}
  {s s' : Pushes} {l : PushLabel}

/-- A path leads to a file. -/
def FileAt (t : FileTree) (path : Str) (p : List (List Char)) (held : Str) : Prop :=
  t.place path = some p ∧ t.node? p = some (.file held)

theorem fileAt_ensureDir {path dir held : Str} {p : List (List Char)} (h : FileAt t path p held) :
    FileAt (ensureDir t dir) path p held := by
  rw [ensureDir]
  split
  · exact ⟨FileTree.resolve_mono (fun q => FileTree.dir_mkdir) h.1,
      (FileTree.file_mkdir p).mpr h.2⟩
  · exact h

theorem fileAt_setNode {path held bytes : Str} {p : List (List Char)} (h : FileAt t path p held) :
    FileAt (t.setNode p (.file bytes)) path p bytes := by
  have hp : t.node? p ≠ some .dir := by
    rw [h.2]
    nofun
  refine ⟨?_, ?_⟩
  · rw [FileTree.place_setNode hp, h.1]
  · rw [FileTree.node?_setNode (FileTree.ne_nil_of_node? hp), if_pos rfl]

/-- What the file holds agrees with a content as far as its worker has written it. -/
structure Agrees (content held : Str) (written : Nat) : Prop where
  behind : written ≤ held.length
  inside : held.length ≤ content.length
  front : held.take written = content.take written

/-- The open streams lead to the file, and once the spared worker has opened it, the file holds
what that one has written. -/
structure Spared (contents : Worker → Str) (w : Worker) (path : Str) (s : Pushes) : Prop where
  streams : ∀ v p n, s.points v = .writing p n → ∃ held, FileAt s.tree path p held
  kept : s.points w ≠ .opening → ∃ p held, FileAt s.tree path p held ∧
    Agrees (contents w) held ((s.points w).position (contents w))

theorem points_setPoint {point : ReceivePoint} :
    (s.setPoint w point).points v = if v = w then point else s.points v := by
  exact Function.update_apply s.points w point v

/-- What a step of a worker does. -/
theorem pushStep_cases (h : pushStep me filename contents s l = some s') :
    (∃ v p tree, l = .openTrunc v ∧ s.points v = .opening ∧
      (ensureDir s.tree (receiveDir me)).openTrunc (receivePath me filename) = some (p, tree) ∧
      s' = { s with tree := tree }.setPoint v (.writing p 0)) ∨
    (∃ v p n bytes, l = .write v bytes ∧ s.points v = .writing p n ∧ 0 < bytes ∧
      n + bytes ≤ (contents v).length ∧
      s' = { s with
        tree := s.tree.writeAt p n (((contents v).drop n).take bytes) }.setPoint v
          (.writing p (n + bytes))) ∨
    ∃ v p n, l = .close v ∧ s.points v = .writing p n ∧ n = (contents v).length ∧
      s' = s.setPoint v .closed := by
  cases l with
  | openTrunc v =>
      rw [pushStep] at h
      split at h
      · next hpoint =>
          split at h
          · next p tree hopen =>
              exact .inl ⟨v, p, tree, rfl, hpoint, hopen, (Option.some.inj h).symm⟩
          · cases h
      · cases h
  | write v bytes =>
      rw [pushStep] at h
      split at h
      · next p n hpoint =>
          split at h
          · next hroom =>
              exact .inr (.inl ⟨v, p, n, bytes, rfl, hpoint, hroom.1, hroom.2,
                (Option.some.inj h).symm⟩)
          · cases h
      · cases h
  | close v =>
      rw [pushStep] at h
      split at h
      · next p n hpoint =>
          split at h
          · next hall =>
              exact .inr (.inr ⟨v, p, n, rfl, hpoint, hall, (Option.some.inj h).symm⟩)
          · cases h
      · cases h

theorem fileAt_openTrunc {path held : Str} {p q : List (List Char)}
    (hopen : t.openTrunc path = some (p, u)) (h : FileAt t path q held) :
    q = p ∧ FileAt u path p [] := by
  obtain ⟨hplace, -, rfl⟩ := FileTree.openTrunc_spec hopen
  have hq : q = p := Option.some.inj (h.1.symm.trans hplace)
  obtain rfl := hq
  exact ⟨rfl, fileAt_setNode h⟩

theorem fileAt_opened {path : Str} {p : List (List Char)} (hopen : t.openTrunc path = some (p, u)) :
    FileAt u path p [] := by
  obtain ⟨hplace, hp, rfl⟩ := FileTree.openTrunc_spec hopen
  refine ⟨?_, ?_⟩
  · rw [FileTree.place_setNode hp, hplace]
  · rw [FileTree.node?_setNode (FileTree.ne_nil_of_node? hp), if_pos rfl]

theorem fileAt_writeAt {path held bytes : Str} {p : List (List Char)} {n : Nat}
    (h : FileAt t path p held) :
    FileAt (t.writeAt p n bytes) path p (FileTree.overwrite held n bytes) := by
  rw [FileTree.writeAt, h.2]
  exact fileAt_setNode h

theorem agrees_empty (content : Str) : Agrees content [] 0 where
  behind := Nat.le_refl 0
  inside := Nat.zero_le _
  front := rfl

/-- The spared worker's next bytes. -/
theorem agrees_write {content held : Str} {n k : Nat} (h : Agrees content held n)
    (hroom : n + k ≤ content.length) :
    Agrees content (FileTree.overwrite held n ((content.drop n).take k)) (n + k) := by
  have hlen : ((content.drop n).take k).length = k := by
    rw [List.length_take, List.length_drop]
    omega
  have hbehind := h.behind
  have hinside := h.inside
  have hwritten : (FileTree.overwrite held n ((content.drop n).take k)).take (n + k) =
      held.take n ++ (content.drop n).take k := by
    rw [← FileTree.take_overwrite h.behind, hlen]
  constructor
  · rw [FileTree.length_overwrite, hlen]
    omega
  · rw [FileTree.length_overwrite, hlen]
    omega
  · rw [hwritten, h.front, List.take_add]

/-- Bytes written where the spared worker is yet to write. -/
theorem agrees_other {content held bytes : Str} {n m : Nat} (h : Agrees content held n)
    (hn : n ≤ m) (hroom : m + bytes.length ≤ content.length) :
    Agrees content (FileTree.overwrite held m bytes) n := by
  have hbehind := h.behind
  have hinside := h.inside
  constructor
  · rw [FileTree.length_overwrite]
    omega
  · rw [FileTree.length_overwrite]
    omega
  · rw [FileTree.take_overwrite_before hn hbehind, h.front]

section Steps

variable (hs : Spared contents w (receivePath me filename) s)

include hs

theorem spared_openTrunc {p : List (List Char)}
    (hopen : (ensureDir s.tree (receiveDir me)).openTrunc (receivePath me filename) = some (p, t))
    (hspares : v ≠ w → (s.points w).position (contents w) = 0) :
    Spared contents w (receivePath me filename)
      ({ s with tree := t }.setPoint v (.writing p 0)) := by
  constructor
  · intro x q n hx
    rw [points_setPoint] at hx
    split at hx
    · cases hx
      exact ⟨[], fileAt_opened hopen⟩
    · obtain ⟨held, hheld⟩ := hs.streams x q n hx
      obtain ⟨rfl, hfile⟩ := fileAt_openTrunc hopen (fileAt_ensureDir hheld)
      exact ⟨[], hfile⟩
  · intro hw
    refine ⟨p, [], fileAt_opened hopen, ?_⟩
    rw [points_setPoint]
    split
    · exact agrees_empty _
    · next hne =>
        show Agrees (contents w) [] ((s.points w).position (contents w))
        rw [hspares fun h => hne h.symm]
        exact agrees_empty _

theorem spared_write {p : List (List Char)} {n k : Nat} (hpoint : s.points v = .writing p n)
    (hroom : n + k ≤ (contents v).length)
    (hspares : v ≠ w → s.points w ≠ .opening →
      (s.points w).position (contents w) ≤ n ∧ n + k ≤ (contents w).length) :
    Spared contents w (receivePath me filename)
      ({ s with tree := s.tree.writeAt p n (((contents v).drop n).take k) }.setPoint v
        (.writing p (n + k))) := by
  obtain ⟨held, hheld⟩ := hs.streams v p n hpoint
  have hplace : ∀ q held', FileAt s.tree (receivePath me filename) q held' →
      q = p ∧ held' = held := by
    intro q held' h
    have hq : q = p := Option.some.inj (h.1.symm.trans hheld.1)
    obtain rfl := hq
    have hsame := h.2.symm.trans hheld.2
    cases hsame
    exact ⟨rfl, rfl⟩
  constructor
  · intro x q m hx
    rw [points_setPoint] at hx
    split at hx
    · cases hx
      exact ⟨_, fileAt_writeAt hheld⟩
    · obtain ⟨held', hheld'⟩ := hs.streams x q m hx
      obtain ⟨rfl, rfl⟩ := hplace q held' hheld'
      exact ⟨_, fileAt_writeAt hheld⟩
  · intro hw
    rw [points_setPoint] at hw
    refine ⟨p, _, fileAt_writeAt hheld, ?_⟩
    rw [points_setPoint]
    by_cases hvw : w = v
    · rw [if_pos hvw]
      obtain rfl := hvw
      obtain ⟨q, held', hheld', hagrees⟩ := hs.kept (by rw [hpoint]; nofun)
      obtain ⟨rfl, rfl⟩ := hplace q held' hheld'
      rw [hpoint] at hagrees
      exact agrees_write hagrees hroom
    · rw [if_neg hvw] at hw ⊢
      obtain ⟨q, held', hheld', hagrees⟩ := hs.kept hw
      obtain ⟨rfl, rfl⟩ := hplace q held' hheld'
      obtain ⟨hbefore, hinside⟩ := hspares (fun h => hvw h.symm) hw
      refine agrees_other hagrees hbefore ?_
      rw [List.length_take, List.length_drop]
      omega

theorem spared_close {p : List (List Char)} {n : Nat} (hpoint : s.points v = .writing p n)
    (hall : n = (contents v).length) :
    Spared contents w (receivePath me filename) (s.setPoint v .closed) := by
  constructor
  · intro x q m hx
    rw [points_setPoint] at hx
    split at hx
    · cases hx
    · exact hs.streams x q m hx
  · intro hw
    rw [points_setPoint] at hw ⊢
    by_cases hvw : w = v
    · rw [if_pos hvw]
      obtain rfl := hvw
      have hkept := hs.kept (by rw [hpoint]; nofun)
      rw [hpoint, ReceivePoint.position, hall] at hkept
      exact hkept
    · rw [if_neg hvw] at hw ⊢
      exact hs.kept hw

theorem spared_step (hspares : Spares contents w s l)
    (hstep : pushStep me filename contents s l = some s') :
    Spared contents w (receivePath me filename) s' := by
  rcases pushStep_cases hstep with ⟨v, p, tree, rfl, -, hopen, rfl⟩ |
    ⟨v, p, n, bytes, rfl, hpoint, -, hroom, rfl⟩ | ⟨v, p, n, rfl, hpoint, hall, rfl⟩
  · exact spared_openTrunc hs hopen hspares
  · refine spared_write hs hpoint hroom ?_
    rw [Spares, hpoint] at hspares
    exact hspares
  · exact spared_close hs hpoint hall

end Steps

/-- When both pushes have finished, the file is the content of the one that was spared. -/
theorem push_stored (w : Worker)
    (hs : ((pushes me filename contents t).restrict (Spares contents w)).Reachable s)
    (hend : ∀ v, s.points v = .closed) :
    s.tree.readFile (receivePath me filename) = some (contents w) := by
  have hspared : Spared contents w (receivePath me filename) s := by
    refine hs.invariant ?_ ?_
    · intro s hs
      obtain rfl := hs
      exact ⟨fun v p n h => (nomatch h), fun h => absurd rfl h⟩
    · intro s l s' _ hs hl
      exact spared_step hs hl.1 hl.2
  obtain ⟨p, held, hfile, hagrees⟩ := hspared.kept (by rw [hend]; nofun)
  rw [hend, ReceivePoint.position] at hagrees
  have hlen : held.length = (contents w).length :=
    Nat.le_antisymm hagrees.inside hagrees.behind
  have hheld : held = contents w := by
    have hfront := hagrees.front
    rw [List.take_length, ← hlen, List.take_length] at hfront
    exact hfront
  rw [FileTree.readFile, FileTree.lookup, hfile.1, Option.bind_some, hfile.2, hheld]

/-- Two files of one name. -/
def longAndShort : Worker → Str
  | .first => "aa".toList
  | .second => "b".toList

def noPush : Pushes := ⟨newDirectory, fun _ => .opening⟩

/-- Where some steps of the two workers lead. -/
def pushRun (ls : List PushLabel) : Pushes :=
  (System.runSteps (pushStep 1 ['a'] longAndShort) noPush ls).getD noPush

/-- The short file is overwritten by the long one, from the start. -/
def sparedPush : List PushLabel :=
  [.openTrunc .second, .write .second 1, .openTrunc .first, .write .first 1, .write .first 1,
    .close .first, .close .second]

theorem push_stored_spared :
    (pushRun sparedPush).tree.readFile (receivePath 1 ['a']) = some (longAndShort .first) := by
  have hrun : System.runSteps (System.guarded (pushStep 1 ['a'] longAndShort)
      (Spares longAndShort .first)) noPush sparedPush = some (pushRun sparedPush) := by
    rfl
  refine push_stored .first (t := newDirectory) (.runSteps ?_ (.init rfl) hrun) ?_
  · intro l _ s s' h
    exact System.guarded_eq_some h
  · intro v
    cases v with
    | first => decide
    | second => decide

/-- The short file is written over the start of the long one. -/
def mixedPush : List PushLabel :=
  [.openTrunc .first, .openTrunc .second, .write .first 2, .close .first, .write .second 1,
    .close .second]

/-- The stored file is neither of the two. -/
theorem push_mixed : ¬∀ s, (pushes 1 ['a'] longAndShort newDirectory).Reachable s →
    (∀ v, s.points v = .closed) →
      ∃ v, s.tree.readFile (receivePath 1 ['a']) = some (longAndShort v) := by
  intro hall
  have hclosed : ∀ v, (pushRun mixedPush).points v = .closed := by
    intro v
    cases v with
    | first => decide
    | second => decide
  have hfile : (pushRun mixedPush).tree.readFile (receivePath 1 ['a']) = some "ba".toList := by
    decide
  obtain ⟨v, hv⟩ := hall (pushRun mixedPush)
    (System.Reachable.getD_runSteps (.init rfl) fun l _ s s' h => h) hclosed
  rw [hfile] at hv
  cases v with
  | first => exact absurd hv (by decide)
  | second => exact absurd hv (by decide)

end P2PFileSharing
