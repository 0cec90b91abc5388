import P2PFileSharing.Model.SharedFiles
import P2PFileSharing.Proofs.FileTransfer

/-!
# Where the code's paths lead

What is received goes two levels down, under a directory of its own; what `SendFile` serves
and `LoadFileInfo` records is one level down.
-/

namespace P2PFileSharing

def sharedName : Str := "shared_files".toList

def receivedName (me : PeerID) : Str := "received".toList ++ intToString me

variable {t : FileTree} {me : PeerID} {f : Str}

theorem notMem_receivedName {c : Char} (hc : c.isDigit = false) (hsign : c ≠ '-')
    (hword : c ∉ "received".toList) : c ∉ receivedName me := by
  intro h
  rcases List.mem_append.mp h with h | h
  · exact hword h
  · exact notMem_intToString hc hsign me h

theorem isName_receivedName : FileTree.IsName (receivedName me) := by
  have hhead : (receivedName me).head? = some 'r' := rfl
  refine ⟨?_, ?_, ?_⟩
  all_goals
    intro h
    rw [h] at hhead
    cases hhead

theorem isName_sharedName : FileTree.IsName sharedName := by
  rw [FileTree.IsName]
  decide

theorem unpad_path {path : Str} (h : '\x00' ∉ path) : unpad '\x00' path = path := by
  have hpad := unpad_pad (n := 0) h
  rw [pad, Nat.zero_sub, List.replicate_zero, List.append_nil] at hpad
  exact hpad

theorem pathNames_shared {rest : Str} :
    pathNames (peerFileDir ++ '/' :: rest) = ['.'] :: sharedName :: pathNames rest := by
  have hdir : peerFileDir = ['.'] ++ '/' :: sharedName := by decide
  have hdot : '/' ∉ ['.'] := by decide
  have hshared : '/' ∉ sharedName := by decide
  have hpath : peerFileDir ++ '/' :: rest = ['.'] ++ '/' :: (sharedName ++ '/' :: rest) := by
    rw [hdir, List.append_assoc]
    rfl
  rw [hpath, pathNames_append hdot, pathNames_append hshared]

theorem received_toList : "/received".toList = '/' :: "received".toList := by decide

theorem slash_toList : "/".toList = ['/'] := by decide

theorem receiveDir_append (rest : Str) :
    receiveDir me ++ rest = peerFileDir ++ '/' :: (receivedName me ++ '/' :: rest) := by
  unfold receiveDir receivedName
  rw [received_toList, slash_toList]
  simp only [List.append_assoc, List.cons_append, List.nil_append]

theorem nul_notMem_receiveDir {rest : Str} (hrest : '\x00' ∉ rest) :
    '\x00' ∉ receiveDir me ++ rest := by
  have hname : '\x00' ∉ receivedName me :=
    notMem_receivedName (by decide) (by decide) (by decide)
  have hslash : '\x00' ≠ '/' := by decide
  have hdir : '\x00' ∉ peerFileDir := by decide
  rw [receiveDir_append, List.mem_append, List.mem_cons, List.mem_append, List.mem_cons]
  tauto

theorem place_sharedPath (hdir : t.node? [sharedName] = some .dir) (hf : IsEntryName f)
    (hname : FileTree.IsName f) : t.place (sharedPath f) = some [sharedName, f] := by
  have hnul : '\x00' ∉ sharedPath f := by
    rw [sharedPath, List.mem_append, List.mem_cons]
    have hslash : '\x00' ≠ '/' := by decide
    have hdir : '\x00' ∉ peerFileDir := by decide
    exact not_or.mpr ⟨hdir, not_or.mpr ⟨hslash, hf.2⟩⟩
  rw [FileTree.place, unpad_path hnul, sharedPath, pathNames_shared, pathNames_single hf.1,
    FileTree.resolve_stay (.inr rfl),
    FileTree.resolve_name isName_sharedName (List.cons_ne_nil _ _)]
  rw [List.nil_append, if_pos hdir, FileTree.resolve_last hname]
  rfl

/-- Where the path of a received file leads, from the names after that of the directory. -/
theorem place_receiveDir {rest : Str} (hrest : '\x00' ∉ rest) :
    t.place (receiveDir me ++ rest) =
      if t.node? [sharedName] = some .dir then
        if t.node? [sharedName, receivedName me] = some .dir then
          t.resolve [sharedName, receivedName me] (pathNames rest)
        else none
      else none := by
  have hslash : '/' ∉ receivedName me := notMem_receivedName (by decide) (by decide) (by decide)
  have hnames : pathNames rest ≠ [] := pathNames_ne_nil rest
  rw [FileTree.place, unpad_path (nul_notMem_receiveDir hrest), receiveDir_append,
    pathNames_shared, pathNames_append hslash, FileTree.resolve_stay (.inr rfl),
    FileTree.resolve_name isName_sharedName (List.cons_ne_nil _ _),
    FileTree.resolve_name isName_receivedName hnames]
  rfl

/-- What `ReceiveFile` opens is a file below the directory of received files. -/
theorem place_receivePath {p : List (List Char)} (hf : IsEntryName f)
    (hp : t.place (receivePath me f) = some p) (hnode : t.node? p ≠ some .dir) :
    p = [sharedName, receivedName me, f] ∧ FileTree.IsName f := by
  have hnul : '\x00' ∉ '/' :: f := by
    rw [List.mem_cons]
    exact not_or.mpr ⟨by decide, hf.2⟩
  have hnames : pathNames ('/' :: f) = [[], f] := by
    have happ := pathNames_append (n := []) List.not_mem_nil f
    rw [List.nil_append, pathNames_single hf.1] at happ
    exact happ
  rw [receivePath, place_receiveDir hnul, hnames, FileTree.resolve_stay (.inl rfl)] at hp
  split at hp
  · next hshared =>
      split at hp
      · next hreceived =>
          by_cases hname : FileTree.IsName f
          · rw [FileTree.resolve_last hname] at hp
            exact ⟨(Option.some.inj hp).symm, hname⟩
          · -- an empty name, `.` or `..` leads to a directory
            exfalso
            by_cases hstay : f = [] ∨ f = ['.']
            · rw [FileTree.resolve_stay hstay, FileTree.resolve, Option.some.injEq] at hp
              rw [← hp] at hnode
              exact hnode hreceived
            · have hup : f = ['.', '.'] := by
                by_contra hne
                exact hname ⟨fun h => hstay (.inl h), fun h => hstay (.inr h), hne⟩
              rw [hup, FileTree.resolve, if_neg (by decide), if_pos rfl, FileTree.resolve,
                Option.some.injEq] at hp
              rw [← hp] at hnode
              exact hnode hshared
      · cases hp
  · cases hp

/-- What `HandleObtainResponse` opens is, too, under the number and the filename. -/
theorem place_obtainPath_eq {p : List (List Char)} {obtainNum : Int} (hf : IsEntryName f)
    (hp : t.place (obtainPath me obtainNum f) = some p) :
    p = [sharedName, receivedName me, intToString obtainNum ++ '_' :: f] := by
  have hnum {c : Char} (hc : c.isDigit = false) (hsign : c ≠ '-') (hunder : c ≠ '_')
      (hcf : c ∉ f) : c ∉ intToString obtainNum ++ '_' :: f := by
    rw [List.mem_append, List.mem_cons]
    exact not_or.mpr ⟨notMem_intToString hc hsign _, not_or.mpr ⟨hunder, hcf⟩⟩
  have hnul := hnum (by decide) (by decide) (by decide) hf.2
  have hslash := hnum (by decide) (by decide) (by decide) hf.1
  have hunder : '_' ∈ intToString obtainNum ++ '_' :: f :=
    List.mem_append_right _ List.mem_cons_self
  have hname : FileTree.IsName (intToString obtainNum ++ '_' :: f) := by
    refine ⟨?_, ?_, ?_⟩
    all_goals
      intro h
      rw [h] at hunder
      exact absurd hunder (by decide)
  rw [obtainPath, List.append_assoc, place_receiveDir hnul, pathNames_single hslash,
    FileTree.resolve_last hname] at hp
  split at hp
  · split at hp
    · exact (Option.some.inj hp).symm
    · cases hp
  · cases hp

theorem place_obtainPath {p : List (List Char)} {obtainNum : Int} (hf : IsEntryName f)
    (hp : t.place (obtainPath me obtainNum f) = some p) :
    ∃ name, p = [sharedName, receivedName me, name] :=
  ⟨_, place_obtainPath_eq hf hp⟩

/-- A path text ends at its first NUL, and so does the filename in it. -/
theorem place_unpad {obtainNum : Int} :
    t.place (obtainPath me obtainNum (unpad '\x00' f)) = t.place (obtainPath me obtainNum f) := by
  have hunpad : ∀ g : Str, unpad '\x00' (obtainPath me obtainNum g) =
      obtainPath me obtainNum (unpad '\x00' g) := by
    intro g
    have hprefix : '\x00' ∉ receiveDir me ++ (intToString obtainNum ++ ['_']) := by
      refine nul_notMem_receiveDir ?_
      rw [List.mem_append]
      exact not_or.mpr ⟨notMem_intToString (by decide) (by decide) _, by decide⟩
    have hsplit : ∀ g : Str, obtainPath me obtainNum g =
        (receiveDir me ++ (intToString obtainNum ++ ['_'])) ++ g := by
      intro g
      simp [obtainPath]
    rw [hsplit g, hsplit, unpad, List.takeWhile_append_of_pos (decide_ne_of_notMem hprefix)]
    rfl
  have hidem : unpad '\x00' (unpad '\x00' f) = unpad '\x00' f := by
    rw [unpad, unpad, List.takeWhile_takeWhile]
    simp
  rw [FileTree.place, FileTree.place, hunpad, hunpad, hidem]

end P2PFileSharing
