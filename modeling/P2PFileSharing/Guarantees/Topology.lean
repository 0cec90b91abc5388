import P2PFileSharing.Model.Topology
import P2PFileSharing.Proofs.Lines

/-!
# Topology files are read exactly

A line of a topology file is a peer, a colon and its neighbours, with one or more blanks
between them and any number before the first and after the last. The blank splitter makes an
empty piece of every blank too many, and the digit filter takes these out, so that a peer
connects to the neighbours of its first line and to nobody else.
-/

namespace P2PFileSharing

/-- A line of a topology file: the peer, its neighbours, and how many blanks there are before
the first, between two besides the one there has to be, and after the last. -/
structure TopologyEntry where
  id : PeerID
  lead : Nat
  first : PeerID
  others : List (Nat × PeerID)
  trail : Nat

variable {entries : List TopologyEntry} {e : TopologyEntry} {p : PeerID}

def TopologyEntry.neighbours (e : TopologyEntry) : List PeerID :=
  e.first :: e.others.map Prod.snd

/-- Ids that are `int`s and not negative. -/
structure TopologyEntry.Valid (e : TopologyEntry) : Prop where
  id : 0 ≤ e.id ∧ IsInt e.id
  neighbours : ∀ q ∈ e.neighbours, 0 ≤ q ∧ IsInt q

def blanks (n : Nat) : Str := List.replicate n ' '

/-- The neighbours behind the first one, each with the blanks before it. -/
def otherNeighbours (others : List (Nat × PeerID)) : Str :=
  others.flatMap fun other => blanks (other.1 + 1) ++ intToString other.2

/-- What comes behind the colon. -/
def TopologyEntry.peerList (e : TopologyEntry) : Str :=
  blanks e.lead ++ (intToString e.first ++ (otherNeighbours e.others ++ blanks e.trail))

def TopologyEntry.line (e : TopologyEntry) : Str := intToString e.id ++ ':' :: e.peerList

/-- A topology file, whose last line may or may not end with a newline. -/
inductive TopologyFile (entries : List TopologyEntry) : Str → Prop
  | terminated : TopologyFile entries (entries.flatMap fun e => e.line ++ ['\n'])
  | separated : TopologyFile entries (joinString (entries.map TopologyEntry.line) ['\n'])

/-! ## Lines -/

theorem notMem_line {c : Char} (hdigit : c.isDigit = false) (hsign : c ≠ '-') (hcolon : c ≠ ':')
    (hblank : c ≠ ' ') (e : TopologyEntry) : c ∉ e.line := by
  have hint := notMem_intToString hdigit hsign
  have hblanks : ∀ n, c ∉ blanks n := fun n h => hblank (List.eq_of_mem_replicate h)
  have hothers : c ∉ otherNeighbours e.others := by
    intro h
    obtain ⟨other, -, h⟩ := List.mem_flatMap.mp h
    rcases List.mem_append.mp h with h | h
    · exact hblanks _ h
    · exact hint _ h
  intro h
  rcases List.mem_append.mp h with h | h
  · exact hint _ h
  · rcases List.mem_cons.mp h with h | h
    · exact hcolon h
    · rcases List.mem_append.mp h with h | h
      · exact hblanks _ h
      · rcases List.mem_append.mp h with h | h
        · exact hint _ h
        · rcases List.mem_append.mp h with h | h
          · exact hothers h
          · exact hblanks _ h

theorem getlines_topologyFile {text : Str} (h : TopologyFile entries text) :
    getlines text = entries.map TopologyEntry.line := by
  have hnewline : ∀ line ∈ entries.map TopologyEntry.line, '\n' ∉ line := by
    intro line hline
    obtain ⟨e, -, rfl⟩ := List.mem_map.mp hline
    exact notMem_line (by decide) (by decide) (by decide) (by decide) e
  rw [getlines_eq_splitString]
  cases h with
  | terminated =>
      have hlines := splitStringFrom_lines (k := -1) (by decide) _ 0 hnewline
      rw [List.flatMap_map] at hlines
      exact hlines
  | separated =>
      refine splitStringFrom_join (by decide) _ 0 hnewline ?_
      intro line hline
      obtain ⟨e, -, rfl⟩ := List.mem_map.mp (List.mem_of_getLast? hline)
      exact List.append_ne_nil_of_right_ne_nil _ (List.cons_ne_nil _ _)

/-! ## The pieces of a peer list -/

theorem blank_notMem_intToString (n : Int) : ' ' ∉ intToString n :=
  notMem_intToString (by decide) (by decide) n

/-- The pieces of `s` that the loop over a peer list does not pass over, `k` blanks into it. -/
def numbersFrom (s : Str) (k : Nat) : List Str :=
  (splitStringFrom [' '] (-1) s [] k).filter isNumber

/-- A blank at the start of a piece makes an empty piece, which is no number. -/
theorem numbersFrom_blanks (n : Nat) (rest : Str) :
    ∀ k, numbersFrom (blanks n ++ rest) k = numbersFrom rest (k + n) := by
  induction n with
  | zero => exact fun _ => rfl
  | succ n ih =>
      intro k
      have hpiece := splitStringFrom_delim (d := ' ') (k := -1) (by decide) (blanks n ++ rest) [] k
      have hempty : isNumber [] = false := rfl
      calc
        numbersFrom (blanks (n + 1) ++ rest) k
            = ([] :: splitStringFrom [' '] (-1) (blanks n ++ rest) [] (k + 1)).filter isNumber :=
          congrArg (List.filter isNumber) hpiece
        _ = numbersFrom (blanks n ++ rest) (k + 1) :=
          List.filter_cons_of_neg (by rw [hempty]; exact Bool.false_ne_true)
        _ = numbersFrom rest (k + 1 + n) := ih (k + 1)
        _ = numbersFrom rest (k + (n + 1)) := by rw [Nat.add_assoc, Nat.add_comm 1 n]

theorem numbersFrom_last {q : PeerID} (hq : 0 ≤ q) (k : Nat) :
    numbersFrom (intToString q) k = [intToString q] := by
  have hpieces := splitStringFrom_append (k := -1) (blank_notMem_intToString q) [] [] k
  rw [List.append_nil, List.nil_append, splitStringFrom, if_neg (intToString_ne_nil q)] at hpieces
  rw [numbersFrom, hpieces, List.filter_cons_of_pos (isNumber_intToString hq), List.filter_nil]

theorem numbersFrom_cons {q : PeerID} (hq : 0 ≤ q) (n : Nat) (rest : Str) (k : Nat) :
    numbersFrom (intToString q ++ (blanks (n + 1) ++ rest)) k =
      intToString q :: numbersFrom rest (k + (n + 1)) := by
  have hpieces := splitStringFrom_append (k := -1) (blank_notMem_intToString q)
    (blanks (n + 1) ++ rest) [] k
  have hblank := splitStringFrom_delim (d := ' ') (k := -1) (by decide) (blanks n ++ rest)
    (intToString q) k
  have hrest := numbersFrom_blanks n rest (k + 1)
  rw [numbersFrom, hpieces, List.nil_append]
  calc
    (splitStringFrom [' '] (-1) (blanks (n + 1) ++ rest) (intToString q) k).filter isNumber
        = (intToString q ::
            splitStringFrom [' '] (-1) (blanks n ++ rest) [] (k + 1)).filter isNumber :=
      congrArg (List.filter isNumber) hblank
    _ = intToString q :: numbersFrom (blanks n ++ rest) (k + 1) :=
      List.filter_cons_of_pos (isNumber_intToString hq)
    _ = intToString q :: numbersFrom rest (k + (n + 1)) := by
      rw [hrest, Nat.add_assoc, Nat.add_comm 1 n]

/-- Behind a peer come its neighbours, however they are spaced. -/
theorem numbersFrom_neighbours (trail : Nat) :
    ∀ (others : List (Nat × PeerID)) (q : PeerID) (k : Nat), 0 ≤ q →
      (∀ other ∈ others, 0 ≤ other.2) →
      numbersFrom (intToString q ++ (otherNeighbours others ++ blanks trail)) k =
        (q :: others.map Prod.snd).map intToString := by
  intro others
  induction others with
  | nil =>
      intro q k hq _
      cases trail with
      | zero =>
          show numbersFrom (intToString q ++ []) k = [intToString q]
          rw [List.append_nil, numbersFrom_last hq]
      | succ n =>
          have hcons := numbersFrom_cons hq n [] k
          rw [List.append_nil] at hcons
          exact hcons
  | cons other others ih =>
      intro q k hq hothers
      have hrest := ih other.2 (k + (other.1 + 1)) (hothers other List.mem_cons_self)
        fun o ho => hothers o (List.mem_cons_of_mem _ ho)
      rw [otherNeighbours, List.flatMap_cons, List.append_assoc, List.append_assoc,
        numbersFrom_cons hq]
      exact congrArg (intToString q :: ·) hrest

theorem numbersFrom_peerList (hv : e.Valid) :
    (splitString e.peerList [' ']).filter isNumber = e.neighbours.map intToString := by
  have hothers : ∀ other ∈ e.others, 0 ≤ other.2 := fun other h =>
    (hv.neighbours _ (List.mem_cons_of_mem _ (List.mem_map_of_mem h))).1
  have hblanks := numbersFrom_blanks e.lead
    (intToString e.first ++ (otherNeighbours e.others ++ blanks e.trail)) 0
  exact hblanks.trans
    (numbersFrom_neighbours _ _ _ _ (hv.neighbours _ List.mem_cons_self).1 hothers)

/-! ## The loops -/

theorem addPeers_filter (pieces : List Str) :
    ∀ m, addPeers pieces m = addPeers (pieces.filter isNumber) m := by
  induction pieces with
  | nil => exact fun _ => rfl
  | cons piece rest ih =>
      intro m
      by_cases hnumber : isNumber piece = true
      · rw [List.filter_cons_of_pos hnumber, addPeers, addPeers, if_pos hnumber, if_pos hnumber]
        cases stoi piece with
        | error fault => rfl
        | ok peer => exact ih _
      · rw [List.filter_cons_of_neg hnumber, addPeers, if_neg hnumber]
        exact ih m

/-- What the loop leaves: the peers of the list besides those it started with. -/
theorem addPeers_map (qs : List PeerID) :
    ∀ m, (∀ q ∈ qs, 0 ≤ q ∧ IsInt q) → ∃ m', addPeers (qs.map intToString) m = .ok m' ∧
      ∀ q, m'.find? q = if q ∈ qs then some [] else m.find? q := by
  induction qs with
  | nil => exact fun m _ => ⟨m, rfl, fun _ => (if_neg List.not_mem_nil).symm⟩
  | cons peer rest ih =>
      intro m hqs
      obtain ⟨hpos, hint⟩ := hqs peer List.mem_cons_self
      obtain ⟨m', hadd, hfind⟩ := ih (m.insert peer []) fun q hq =>
        hqs q (List.mem_cons_of_mem _ hq)
      refine ⟨m', ?_, ?_⟩
      · rw [List.map_cons, addPeers, if_pos (isNumber_intToString hpos), stoi_intToString hint]
        exact hadd
      · intro q
        rw [hfind, UnorderedMap.find?_insert]
        by_cases hrest : q ∈ rest
        · rw [if_pos hrest, if_pos (List.mem_cons_of_mem _ hrest)]
        · by_cases hpeer : peer = q
          · rw [if_neg hrest, if_pos (beq_iff_eq.mpr hpeer), if_pos (hpeer ▸ List.mem_cons_self)]
          · have hnot : q ∉ peer :: rest := by
              intro h
              rcases List.mem_cons.mp h with h | h
              · exact hpeer h.symm
              · exact hrest h
            rw [if_neg hrest, if_neg (fun h => hpeer (beq_iff_eq.mp h)), if_neg hnot]

theorem colon_notMem_intToString (n : Int) : ':' ∉ intToString n :=
  notMem_intToString (by decide) (by decide) n

theorem beforeColon_line (e : TopologyEntry) :
    (e.line.takeWhile fun c => c ≠ ':') = intToString e.id :=
  takeWhile_append_sep (colon_notMem_intToString e.id) e.peerList

theorem afterColon_line (e : TopologyEntry) : afterFirst ':' e.line = e.peerList :=
  afterFirst_append (colon_notMem_intToString e.id) e.peerList

/-- The lines before the peer's own are passed over and those behind it not looked at. -/
theorem loadLines_find (hv : ∀ e ∈ entries, e.Valid)
    (hfind : entries.find? (fun e => e.id = p) = some e) :
    loadLines p (entries.map TopologyEntry.line) =
      addPeers (splitString e.peerList [' ']) .empty := by
  induction entries with
  | nil => cases hfind
  | cons head rest ih =>
      have hid := stoi_intToString (hv head List.mem_cons_self).id.2
      rw [List.map_cons, loadLines, beforeColon_line, hid]
      show (if head.id ≠ p then loadLines p (rest.map TopologyEntry.line)
        else addPeers (splitString (afterFirst ':' head.line) [' ']) .empty) = _
      by_cases hp : head.id = p
      · rw [List.find?_cons, decide_eq_true hp] at hfind
        injection hfind with hfind
        rw [if_neg (not_not.mpr hp), afterColon_line, hfind]
      · rw [List.find?_cons, decide_eq_false hp] at hfind
        rw [if_pos hp]
        exact ih (fun e he => hv e (List.mem_cons_of_mem _ he)) hfind

theorem size_pos_of_find? {m : UnorderedMap PeerID Str} {q : PeerID} (h : m.find? q ≠ none) :
    m.size > 0 := by
  have hmem := UnorderedMap.mem_keys_iff.mpr h
  rw [← UnorderedMap.length_keys]
  exact List.length_pos_of_mem hmem

/-- `LoadTopology` leaves the neighbours of the peer's first line, and no one else, each with
an empty address. -/
theorem topology_read (hv : ∀ e ∈ entries, e.Valid)
    (hfind : entries.find? (fun e => e.id = p) = some e) {text : Str}
    (hfile : TopologyFile entries text) {files : Str → Option Str} {topologyType : ETopologyType}
    (hopen : files (topologyFileName topologyType) = some text) :
    ∃ m, loadTopology files topologyType p = .ok m ∧
      ∀ q, m.find? q = if q ∈ e.neighbours then some [] else none := by
  have hvalid := hv e (List.mem_of_find?_eq_some hfind)
  obtain ⟨m, hadd, hpeers⟩ := addPeers_map e.neighbours .empty hvalid.neighbours
  have hload : loadLines p (getlines text) = .ok m := by
    rw [getlines_topologyFile hfile, loadLines_find hv hfind, addPeers_filter,
      numbersFrom_peerList hvalid, hadd]
  have hfirst : m.find? e.first ≠ none := by
    rw [hpeers, TopologyEntry.neighbours, if_pos List.mem_cons_self]
    exact Option.some_ne_none _
  refine ⟨m, ?_, hpeers⟩
  simp only [loadTopology, hopen, hload]
  exact if_pos (size_pos_of_find? hfirst)

/-- Two lines for peer 1, with blanks too many in the first of them. -/
def spacedOut : List TopologyEntry :=
  [⟨0, 1, 1, [(0, 2)], 0⟩, ⟨1, 2, 0, [(0, 15), (2, 0)], 1⟩, ⟨1, 0, 7, [], 0⟩]

theorem topology_read_spacedOut :
    ∃ m, loadTopology (fun _ => some "0: 1 2\n1:  0 15   0 \n1:7".toList) .test 1 = .ok m ∧
      ∀ q, m.find? q = if q ∈ [0, 15, 0] then some [] else none := by
  have hfile : TopologyFile spacedOut "0: 1 2\n1:  0 15   0 \n1:7".toList := .separated
  have hv : ∀ e ∈ spacedOut, e.Valid := by
    intro e he
    fin_cases he <;> exact ⟨by decide, by decide⟩
  have hfind : spacedOut.find? (fun e => e.id = 1) = some ⟨1, 2, 0, [(0, 15), (2, 0)], 1⟩ := rfl
  exact topology_read hv hfind hfile rfl

end P2PFileSharing
