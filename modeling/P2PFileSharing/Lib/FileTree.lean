import Mathlib
import P2PFileSharing.Lib.Framing
import P2PFileSharing.Lib.UnorderedMap

/-!
# A tree of files

Directories and files by their path, without links. A path text ends at its first NUL
and is looked up name by name from the working directory, which is the root here: empty
names and `.` stay, `..` goes up, and every name but the last must be a directory.
Opening for writing creates the file in an existing directory, or empties it, or keeps
what it holds.

What a lookup finds depends on which nodes are directories and on nothing else, so
writing to a file changes what that path reads and leaves every other one alone.
-/

namespace P2PFileSharing

/-- A directory, or a file with its bytes. -/
inductive FileNode
  | dir
  | file (content : List Char)
  deriving DecidableEq, Repr

/-- The nodes by the names on the way to them. -/
structure FileTree where
  nodes : UnorderedMap (List (List Char)) FileNode

/-- The names between the slashes of a path. -/
def pathNames : List Char → List (List Char)
  | [] => [[]]
  | c :: rest =>
      if c = '/' then [] :: pathNames rest
      else
        match pathNames rest with
        | [] => [[c]]
        | name :: names => (c :: name) :: names

namespace FileTree

variable (t : FileTree)

/-- The node at a place; the root is a directory. -/
def node? (p : List (List Char)) : Option FileNode :=
  if p = [] then some .dir else t.nodes.find? p

/-- Where a path leads from a directory, the last name not necessarily to a node. -/
def resolve : List (List Char) → List (List Char) → Option (List (List Char))
  | cur, [] => some cur
  | cur, name :: rest =>
      if name = [] ∨ name = ['.'] then resolve cur rest
      else if name = ['.', '.'] then resolve cur.dropLast rest
      else if rest = [] then some (cur ++ [name])
      else if t.node? (cur ++ [name]) = some .dir then resolve (cur ++ [name]) rest
      else none

/-- Where a path text leads. -/
def place (path : List Char) : Option (List (List Char)) :=
  t.resolve [] (pathNames (unpad '\x00' path))

/-- The node a path text leads to. -/
def lookup (path : List Char) : Option FileNode := (t.place path).bind t.node?

/-- The bytes of the file at a path, as far as there is one. -/
def readFile (path : List Char) : Option (List Char) :=
  match t.lookup path with
  | some (.file content) => some content
  | _ => none

/-- `opendir`: where a directory is, as far as there is one. -/
def openDir (path : List Char) : Option (List (List Char)) :=
  match t.place path with
  | some p => if t.node? p = some .dir then some p else none
  | none => none

/-- The entries of a directory, without `.` and `..`. -/
def readDir (p : List (List Char)) : List (List Char × FileNode) :=
  t.nodes.entries.filterMap fun e =>
    match e.1.getLast? with
    | some name => if e.1.dropLast = p then some (name, e.2) else none
    | none => none

def setNode (p : List (List Char)) (node : FileNode) : FileTree := ⟨t.nodes.insert p node⟩

/-- `mkdir`, which does not mind slashes at the end: nothing happens if there is a node, or
nowhere to put one. -/
def mkdir (path : List Char) : FileTree :=
  match t.resolve [] ((pathNames (unpad '\x00' path)).rdropWhile fun name => name = []) with
  | some p => if t.node? p = none then t.setNode p .dir else t
  | none => t

/-- Opening a file for writing, empty. -/
def openTrunc (path : List Char) : Option (List (List Char) × FileTree) :=
  match t.place path with
  | some p => if t.node? p = some .dir then none else some (p, t.setNode p (.file []))
  | none => none

/-- What a file opened for appending already holds; a directory cannot be opened. -/
def appendable (path : List Char) : Option (List (List Char) × List Char) :=
  match t.place path with
  | some p =>
      match t.node? p with
      | none => some (p, [])
      | some (.file content) => some (p, content)
      | some .dir => none
  | none => none

/-- Opening a file for appending. -/
def openAppend (path : List Char) : Option (List (List Char) × FileTree) :=
  match t.appendable path with
  | some (p, content) => some (p, t.setNode p (.file content))
  | none => none

/-- Writing at the end of a file. -/
def append (p : List (List Char)) (bytes : List Char) : FileTree :=
  match t.node? p with
  | some (.file content) => t.setNode p (.file (content ++ bytes))
  | _ => t

/-- The bytes of a file after a write at an offset; a gap is filled with zeros. -/
def overwrite (content : List Char) (offset : Nat) (bytes : List Char) : List Char :=
  content.take offset ++ List.replicate (offset - content.length) '\x00' ++
    bytes ++ content.drop (offset + bytes.length)

/-- Writing at an offset of a file. -/
def writeAt (p : List (List Char)) (offset : Nat) (bytes : List Char) : FileTree :=
  match t.node? p with
  | some (.file content) => t.setNode p (.file (overwrite content offset bytes))
  | _ => t

end FileTree

/-! ## Paths -/

theorem pathNames_single {n : List Char} (h : '/' ∉ n) : pathNames n = [n] := by
  induction n with
  | nil => rfl
  | cons c n ih =>
      have hc : c ≠ '/' := fun hc => h (hc ▸ List.mem_cons_self)
      rw [pathNames, if_neg hc, ih fun hn => h (List.mem_cons_of_mem _ hn)]

theorem pathNames_append {n : List Char} (h : '/' ∉ n) (rest : List Char) :
    pathNames (n ++ '/' :: rest) = n :: pathNames rest := by
  induction n with
  | nil =>
      rw [List.nil_append, pathNames, if_pos rfl]
  | cons c n ih =>
      have hc : c ≠ '/' := fun hc => h (hc ▸ List.mem_cons_self)
      rw [List.cons_append, pathNames, if_neg hc, ih fun hn => h (List.mem_cons_of_mem _ hn)]

theorem pathNames_ne_nil (path : List Char) : pathNames path ≠ [] := by
  cases path with
  | nil => exact List.cons_ne_nil _ _
  | cons c rest =>
      rw [pathNames]
      split
      · exact List.cons_ne_nil _ _
      · split
        · exact List.cons_ne_nil _ _
        · exact List.cons_ne_nil _ _

namespace FileTree

variable {t u : FileTree} {p q : List (List Char)} {path : List Char} {node : FileNode}
  {content bytes : List Char}

theorem node?_setNode (hp : p ≠ []) :
    (t.setNode p node).node? q = if q = p then some node else t.node? q := by
  by_cases hq : q = p
  · subst hq
    rw [if_pos rfl, node?, if_neg hp]
    exact UnorderedMap.find?_insert_self ..
  · rw [if_neg hq, node?, node?]
    split
    · rfl
    · show (t.nodes.insert p node).find? q = _
      rw [UnorderedMap.find?_insert, if_neg]
      rw [beq_iff_eq]
      exact fun h => hq h.symm

/-- A place that is no directory is not the root. -/
theorem ne_nil_of_node? (h : t.node? p ≠ some .dir) : p ≠ [] := by
  intro h
  obtain rfl := h
  exact h rfl

/-- A name that stands for an entry of the directory it is looked up in. -/
def IsName (name : List Char) : Prop := name ≠ [] ∧ name ≠ ['.'] ∧ name ≠ ['.', '.']

theorem resolve_stay {cur rest : List (List Char)} {name : List Char}
    (h : name = [] ∨ name = ['.']) : t.resolve cur (name :: rest) = t.resolve cur rest := by
  rw [resolve, if_pos h]

theorem resolve_last {cur : List (List Char)} {name : List Char} (h : IsName name) :
    t.resolve cur [name] = some (cur ++ [name]) := by
  rw [resolve, if_neg (not_or.mpr ⟨h.1, h.2.1⟩), if_neg h.2.2, if_pos rfl]

theorem resolve_name {cur rest : List (List Char)} {name : List Char} (h : IsName name)
    (hrest : rest ≠ []) : t.resolve cur (name :: rest) =
      if t.node? (cur ++ [name]) = some .dir then t.resolve (cur ++ [name]) rest else none := by
  rw [resolve, if_neg (not_or.mpr ⟨h.1, h.2.1⟩), if_neg h.2.2, if_neg hrest]

/-- Paths lead to the same places in trees with the same directories. -/
theorem resolve_congr (h : ∀ q, t.node? q = some .dir ↔ u.node? q = some .dir)
    (names : List (List Char)) : ∀ cur, t.resolve cur names = u.resolve cur names := by
  induction names with
  | nil =>
      intro cur
      rfl
  | cons name rest ih =>
      intro cur
      rw [resolve, resolve, ih, ih, ih]
      split
      · rfl
      · split
        · rfl
        · split
          · rfl
          · by_cases hdir : t.node? (cur ++ [name]) = some .dir
            · rw [if_pos hdir, if_pos ((h _).mp hdir)]
            · rw [if_neg hdir, if_neg fun hu => hdir ((h _).mpr hu)]

/-- A path still leads where it did when there are more directories. -/
theorem resolve_mono (h : ∀ q, t.node? q = some .dir → u.node? q = some .dir)
    {names : List (List Char)} :
    ∀ {cur}, t.resolve cur names = some p → u.resolve cur names = some p := by
  induction names with
  | nil =>
      intro cur hp
      exact hp
  | cons name rest ih =>
      intro cur hp
      rw [resolve] at hp ⊢
      split at hp
      · next hstay =>
          rw [if_pos hstay]
          exact ih hp
      · next hstay =>
          rw [if_neg hstay]
          split at hp
          · next hup =>
              rw [if_pos hup]
              exact ih hp
          · next hup =>
              rw [if_neg hup]
              split at hp
              · next hlast =>
                  rw [if_pos hlast]
                  exact hp
              · next hlast =>
                  rw [if_neg hlast]
                  split at hp
                  · next hdir =>
                      rw [if_pos (h _ hdir)]
                      exact ih hp
                  · cases hp

/-- Writing a file where there is no directory changes no directory. -/
theorem dir_setNode (hp : t.node? p ≠ some .dir) (q : List (List Char)) :
    (t.setNode p (.file content)).node? q = some .dir ↔ t.node? q = some .dir := by
  rw [node?_setNode (ne_nil_of_node? hp)]
  split
  · next hq =>
      rw [hq]
      exact ⟨nofun, fun h => absurd h hp⟩
  · exact Iff.rfl

theorem place_setNode (hp : t.node? p ≠ some .dir) :
    (t.setNode p (.file content)).place path = t.place path :=
  resolve_congr (dir_setNode hp) _ _

theorem mem_readDir {name : List Char} :
    (name, node) ∈ t.readDir p ↔ t.node? (p ++ [name]) = some node := by
  have hne : p ++ [name] ≠ [] := List.append_ne_nil_of_right_ne_nil _ (List.cons_ne_nil _ _)
  rw [node?, if_neg hne, ← UnorderedMap.mem_entries_iff, readDir, List.mem_filterMap]
  constructor
  · intro h
    obtain ⟨e, he, h⟩ := h
    cases hlast : e.1.getLast? with
    | none =>
        rw [hlast] at h
        cases h
    | some last =>
        rw [hlast] at h
        dsimp only at h
        split at h
        · next hdir =>
            cases h
            have heq := List.dropLast_append_getLast? _ (Option.mem_def.mpr hlast)
            rw [hdir] at heq
            rw [heq]
            exact he
        · cases h
  · intro h
    refine ⟨_, h, ?_⟩
    simp

/-- Making a directory adds one at most. -/
theorem node?_mkdir (t : FileTree) (path : List Char) (q : List (List Char)) :
    (t.mkdir path).node? q = t.node? q ∨
      (t.node? q = none ∧ (t.mkdir path).node? q = some .dir) := by
  unfold mkdir
  split
  · next p _ =>
      split
      · next hnone =>
          have hp : p ≠ [] := ne_nil_of_node? (by rw [hnone]; nofun)
          rw [node?_setNode hp]
          split
          · next hq =>
              rw [hq]
              exact .inr ⟨hnone, rfl⟩
          · exact .inl rfl
      · exact .inl rfl
  · exact .inl rfl

/-- Making a directory changes no file. -/
theorem file_mkdir (q : List (List Char)) :
    (t.mkdir path).node? q = some (.file content) ↔ t.node? q = some (.file content) := by
  rcases node?_mkdir t path q with hsame | ⟨hnone, hdir⟩
  · rw [hsame]
  · rw [hnone, hdir]
    exact ⟨nofun, nofun⟩

/-- Making a directory removes none. -/
theorem dir_mkdir {q : List (List Char)} (h : t.node? q = some .dir) :
    (t.mkdir path).node? q = some .dir := by
  rcases node?_mkdir t path q with hsame | ⟨-, hdir⟩
  · rw [hsame, h]
  · exact hdir

/-! ## Overwriting -/

theorem length_overwrite {offset : Nat} :
    (overwrite content offset bytes).length = max content.length (offset + bytes.length) := by
  rw [overwrite, List.length_append, List.length_append, List.length_append, List.length_take,
    List.length_replicate, List.length_drop]
  omega

/-- What stands before the offset stays. -/
theorem take_overwrite_before {offset k : Nat} (hk : k ≤ offset) (hlen : k ≤ content.length) :
    (overwrite content offset bytes).take k = content.take k := by
  have hfront : k ≤ (content.take offset).length := by
    rw [List.length_take]
    omega
  rw [overwrite, List.append_assoc, List.append_assoc, List.take_append_of_le_length hfront,
    List.take_take, Nat.min_eq_left hk]

/-- What is written comes behind it. -/
theorem take_overwrite {offset : Nat} (h : offset ≤ content.length) :
    (overwrite content offset bytes).take (offset + bytes.length) =
      content.take offset ++ bytes := by
  have hlen : (content.take offset ++ bytes).length = offset + bytes.length := by
    rw [List.length_append, List.length_take, Nat.min_eq_left h]
  rw [overwrite, Nat.sub_eq_zero_of_le h, List.replicate_zero, List.append_nil, ← hlen,
    List.take_left]

/-! ## Opening -/

theorem openTrunc_spec (h : t.openTrunc path = some (p, u)) :
    t.place path = some p ∧ t.node? p ≠ some .dir ∧ u = t.setNode p (.file []) := by
  unfold openTrunc at h
  split at h
  · next p' hplace =>
      split at h
      · cases h
      · next hp =>
          cases h
          exact ⟨hplace, hp, rfl⟩
  · cases h

theorem appendable_spec {held : List Char} (h : t.appendable path = some (p, held)) :
    t.place path = some p ∧ t.node? p ≠ some .dir := by
  unfold appendable at h
  split at h
  · next p' hplace =>
      split at h
      · next hnode =>
          cases h
          exact ⟨hplace, by rw [hnode]; nofun⟩
      · next content hnode =>
          cases h
          exact ⟨hplace, by rw [hnode]; nofun⟩
      · cases h
  · cases h

theorem openAppend_spec (h : t.openAppend path = some (p, u)) :
    t.place path = some p ∧ t.node? p ≠ some .dir ∧ ∃ held, u = t.setNode p (.file held) := by
  unfold openAppend at h
  split at h
  · next p' held hopen =>
      cases h
      obtain ⟨hplace, hp⟩ := appendable_spec hopen
      exact ⟨hplace, hp, held, rfl⟩
  · cases h

/-- A file that can be read can be opened for appending. -/
theorem appendable_of_readFile (h : t.readFile path = some content) :
    ∃ p, t.appendable path = some (p, content) := by
  rw [readFile, lookup] at h
  rw [appendable]
  cases hplace : t.place path with
  | none =>
      rw [hplace, Option.bind_none] at h
      cases h
  | some p =>
      rw [hplace, Option.bind_some] at h
      refine ⟨p, ?_⟩
      dsimp only
      cases hnode : t.node? p with
      | none =>
          rw [hnode] at h
          cases h
      | some node =>
          rw [hnode] at h
          cases node with
          | dir => cases h
          | file held =>
              cases h
              rfl

end FileTree

end P2PFileSharing
