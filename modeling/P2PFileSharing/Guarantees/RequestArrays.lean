import P2PFileSharing.Model.RequestArrays
import P2PFileSharing.Proofs.FileTransfer

/-!
# When a request is parsed inside its arrays

The scanning loop never leaves its arrays. What goes wrong is around it: the NUL that is put
behind the bytes lies outside the array when `recv` has filled it, which is what the client
sends; the entries of `pos` are used whether or not a newline was found for them; and nothing
catches what `std::stoi` throws. So there is no request that is rejected: one that is not
well-formed is never got past.
-/

namespace P2PFileSharing

/-! ## The scanning loop -/

/-- `pos` when these newlines were found. -/
def positions (found : List Nat) : Positions :=
  found.map some ++ List.replicate (packetSplitNumRequest - found.length) none

section Scan

variable {msgBuffer bytes : Str} {found : List Nat}

theorem newlines_cons (c : Char) (rest : Str) :
    newlines (c :: rest) =
      (if c = '\n' then [0] else []) ++ (newlines rest).map fun k => 1 + k := by
  have happ := newlines_append [c] rest
  have hone : newlines [c] = if c = '\n' then [0] else [] := by
    split
    · next hc =>
        rw [hc]
        rfl
    · next hc =>
        refine newlines_eq_nil ?_
        rw [List.mem_singleton]
        exact fun h => hc h.symm
  rw [hone] at happ
  exact happ

theorem writePos_positions (h : found.length < packetSplitNumRequest) (i : Nat) :
    writePos (positions found) found.length i = .ok (positions (found ++ [i])) := by
  have hlen : found.length = (found.map some).length := (List.length_map _).symm
  have hleft : packetSplitNumRequest - found.length =
      packetSplitNumRequest - (found ++ [i]).length + 1 := by
    rw [List.length_append, List.length_singleton]
    omega
  rw [writePos, if_pos]
  · congr 1
    rw [positions, positions, hleft, List.replicate_succ]
    conv =>
      lhs
      rw [hlen]
    rw [List.set_append_right _ _ (Nat.le_refl _), Nat.sub_self, List.set_cons_zero,
      List.map_append, List.append_assoc]
    rfl
  · rw [positions, List.length_append, List.length_map, List.length_replicate]
    omega

/-- The loop assigns the first newlines there are. -/
theorem scanNewlines_eq (hbuf : ∀ i < bytes.length, msgBuffer[i]? = bytes[i]?) (left : Nat) :
    ∀ {i : Nat} {found : List Nat}, i + left = bytes.length →
    found.length < packetSplitNumRequest →
    scanNewlines msgBuffer left i (positions found) found.length =
      .ok (positions ((found ++ (newlines (bytes.drop i)).map fun k => i + k).take
        packetSplitNumRequest)) := by
  induction left with
  | zero =>
      intro i found hi hfound
      have hnil : bytes.drop i = [] := List.drop_eq_nil_of_le (by omega)
      rw [hnil, scanNewlines, newlines_eq_nil List.not_mem_nil, List.map_nil, List.append_nil,
        List.take_of_length_le (by omega)]
  | succ left ih =>
      intro i found hi hfound
      have hlt : i < bytes.length := by omega
      have hread : readBuffer msgBuffer i = .ok bytes[i] := by
        rw [readBuffer, hbuf i hlt, List.getElem?_eq_getElem hlt]
      have hshift : ((newlines (bytes.drop (i + 1))).map fun k => 1 + k).map (fun k => i + k) =
          (newlines (bytes.drop (i + 1))).map fun k => i + 1 + k := by
        rw [List.map_map]
        refine List.map_congr_left fun k _ => ?_
        rw [Function.comp_apply, Nat.add_assoc]
      rw [List.drop_eq_getElem_cons hlt, newlines_cons, List.map_append, hshift, scanNewlines]
      simp only [hread, bind, Except.bind]
      by_cases hc : bytes[i] = '\n'
      · simp only [if_pos hc, writePos_positions hfound, List.map_singleton, Nat.add_zero]
        by_cases hlast : found.length + 1 = packetSplitNumRequest
        · rw [if_pos hlast, ← List.append_assoc, List.take_append_of_le_length,
            List.take_of_length_le]
          · rfl
          · rw [List.length_append, List.length_singleton]
            omega
          · rw [List.length_append, List.length_singleton]
            omega
        · have hnext : (found ++ [i]).length = found.length + 1 := by
            rw [List.length_append, List.length_singleton]
          rw [if_neg hlast, ← hnext, ih (by omega) (by omega), List.append_assoc]
      · simp only [if_neg hc, List.map_nil, List.nil_append]
        exact ih (by omega) hfound

end Scan

/-! ## A request in the arrays -/

section Parse

variable {bytes : Str}

/-- A frame that fills the array leaves no room for the NUL. -/
theorem parseArrays_full (h : bytes.length = msgBufSize) :
    parseArrays bytes = .error (.msgBuffer msgBufSize) := by
  have hwrite : writeBuffer (pad msgBufSize '\x00' bytes) bytes.length '\x00' =
      .error (.msgBuffer msgBufSize) := by
    rw [writeBuffer, length_pad (Nat.le_of_eq h), h, if_neg (Nat.lt_irrefl _)]
  rw [parseArrays, hwrite]
  rfl

theorem readPos_positions {found : List Nat} {i : Nat} (h : found.length ≤ packetSplitNumRequest)
    (hi : i < packetSplitNumRequest) :
    readPos (positions found) i = convert (assigned found i) := by
  rw [readPos, assigned, positions]
  by_cases hlt : i < found.length
  · rw [List.getElem?_append_left (by rw [List.length_map]; exact hlt), List.getElem?_map,
      List.getElem?_eq_getElem hlt]
    rfl
  · rw [List.getElem?_append_right (by rw [List.length_map]; omega), List.length_map,
      List.getElem?_replicate, if_pos (by omega), List.getElem?_eq_none (by omega)]
    rfl

theorem lt_of_mem_newlines {i : Nat} (h : i ∈ newlines bytes) : i < bytes.length := by
  rw [newlines, List.mem_filter] at h
  exact List.mem_range.mp h.1

theorem assigned_lt {i n : Nat}
    (h : assigned ((newlines bytes).take packetSplitNumRequest) i = .ok n) : n < bytes.length := by
  rw [assigned] at h
  split at h
  · next m hm =>
      cases h
      exact lt_of_mem_newlines (List.mem_of_mem_take (List.mem_of_getElem? hm))
  · cases h

/-- What lies in front of a position is read from the array as it is. -/
theorem readString_pad (start count : Nat) (hroom : bytes.length ≤ msgBufSize)
    (h : start + count ≤ bytes.length) :
    readString (pad msgBufSize '\x00' bytes) start count =
      .ok ((bytes.drop start).take count) := by
  have hcut : ((pad msgBufSize '\x00' bytes).drop start).take count =
      (bytes.drop start).take count := by
    have htake := congrArg (List.drop start) (take_pad (n := msgBufSize) (z := '\x00') h)
    rw [List.drop_take, List.drop_take, Nat.add_sub_cancel_left] at htake
    exact htake
  rw [readString, length_pad hroom, if_pos (by omega), hcut]

/-- A request that leaves room for the NUL is parsed as without the arrays. -/
theorem parseArrays_eq (h : bytes.length < msgBufSize) :
    parseArrays bytes = convert (parseRequest bytes) := by
  have hle : bytes.length ≤ msgBufSize := by omega
  have hzero : List.replicate (msgBufSize - bytes.length) '\x00' =
      '\x00' :: List.replicate (msgBufSize - bytes.length - 1) '\x00' := by
    rw [← List.replicate_succ]
    congr 1
    omega
  have hset : (pad msgBufSize '\x00' bytes).set bytes.length '\x00' =
      pad msgBufSize '\x00' bytes := by
    rw [pad, List.set_append_right _ _ (Nat.le_refl _), Nat.sub_self, hzero, List.set_cons_zero]
  have hwrite : writeBuffer (pad msgBufSize '\x00' bytes) bytes.length '\x00' =
      .ok (pad msgBufSize '\x00' bytes) := by
    rw [writeBuffer, length_pad hle, if_pos h, hset]
  have hbuf : ∀ i < bytes.length, (pad msgBufSize '\x00' bytes)[i]? = bytes[i]? := by
    intro i hi
    rw [pad, List.getElem?_append_left hi]
  have hscan : scanNewlines (pad msgBufSize '\x00' bytes) bytes.length 0
      (List.replicate packetSplitNumRequest none) 0 =
      .ok (positions ((newlines bytes).take packetSplitNumRequest)) := by
    have hnone : ([] : List Nat).length < packetSplitNumRequest := by decide
    have hscan := scanNewlines_eq hbuf bytes.length (Nat.zero_add _) hnone
    have hid : (newlines bytes).map (fun k => 0 + k) = newlines bytes := by
      simp
    rw [List.drop_zero, List.nil_append, hid] at hscan
    exact hscan
  have hcount : ((newlines bytes).take packetSplitNumRequest).length ≤ packetSplitNumRequest :=
    List.length_take_le _ _
  have hpos₀ := readPos_positions hcount (i := 0) (by decide)
  have hpos₁ := readPos_positions hcount (i := 1) (by decide)
  simp only [parseArrays, parseRequest, hwrite, hscan, hpos₀, hpos₁, bind, Except.bind]
  cases h₀ : assigned ((newlines bytes).take packetSplitNumRequest) 0 with
  | error f => rfl
  | ok pos₀ =>
      have hlt₀ := assigned_lt h₀
      have htype := readString_pad 0 pos₀ hle (by omega)
      rw [List.drop_zero] at htype
      simp only [convert, htype]
      cases stoi (bytes.take pos₀) with
      | error f => rfl
      | ok requestType =>
          cases h₁ : assigned ((newlines bytes).take packetSplitNumRequest) 1 with
          | error f => rfl
          | ok pos₁ =>
              have hlt₁ := assigned_lt h₁
              have hname := readString_pad (pos₀ + 1) (pos₁ - pos₀ - 1) hle (by omega)
              simp only [hname]
              rfl

/-- The request has its two newlines, and a number for its type. -/
structure IsRequest (bytes : Str) : Prop where
  newlines : 2 ≤ (newlines bytes).length
  number : ∃ n, stoi (bytes.takeWhile fun c => c ≠ '\n') = .ok n

theorem parseRequest_ok_iff : (∃ r, parseRequest bytes = .ok r) ↔ IsRequest bytes := by
  by_cases hmem : '\n' ∈ bytes
  · obtain ⟨front, rest, rfl, hfront⟩ := List.eq_append_cons_of_mem hmem
    obtain ⟨more, hmore⟩ : ∃ more, newlines (front ++ '\n' :: rest) = front.length :: more := by
      rw [newlines_append, newlines_eq_nil hfront, newlines_cons, if_pos rfl]
      exact ⟨_, rfl⟩
    have htype : (front ++ '\n' :: rest).take front.length = front := List.take_left
    have hfirst : (front ++ '\n' :: rest).takeWhile (fun c => c ≠ '\n') = front :=
      takeWhile_append_sep hfront rest
    have hpos₀ : assigned ((front.length :: more).take packetSplitNumRequest) 0 =
        .ok front.length := rfl
    simp only [parseRequest, hmore, hpos₀, htype, bind, Except.bind]
    constructor
    · intro h
      obtain ⟨r, hr⟩ := h
      split at hr
      · cases hr
      · next requestType hnumber =>
          split at hr
          · cases hr
          · next pos₁ hpos₁ =>
              refine ⟨?_, requestType, by rw [hfirst]; exact hnumber⟩
              rw [hmore]
              cases more with
              | nil => cases hpos₁
              | cons => exact Nat.le_add_left 2 _
    · intro h
      obtain ⟨n, hn⟩ := h.number
      have htwo := h.newlines
      rw [hmore] at htwo
      rw [hfirst] at hn
      cases more with
      | nil => exact absurd htwo (Nat.not_succ_le_self 1)
      | cons pos₁ more =>
          have hpos₁ : assigned ((front.length :: pos₁ :: more).take packetSplitNumRequest) 1 =
              .ok pos₁ := rfl
          simp only [hn, hpos₁]
          exact ⟨_, rfl⟩
  · have hnone := newlines_eq_nil hmem
    have hpos₀ : assigned (([] : List Nat).take packetSplitNumRequest) 0 =
        .error .missingField := rfl
    simp only [parseRequest, hnone, hpos₀, bind, Except.bind]
    constructor
    · intro h
      obtain ⟨r, hr⟩ := h
      cases hr
    · intro h
      have htwo := h.newlines
      rw [hnone] at htwo
      exact absurd htwo (by decide)

end Parse

/-! ## Serving a request -/

section Serve

variable {t : FileTree} {me : PeerID} {bytes : Str} {rest : List RecvResult}

/-- Every access is inside its array, every entry used was assigned and nothing is thrown; and a
request that is not well-formed has no effect. -/
structure ParsesSafely (t : FileTree) (me : PeerID) (rest : List RecvResult) (bytes : Str) :
    Prop where
  safe : ∃ r, handleClientArrays t me (.data bytes) rest = .ok r
  rejects : ¬IsRequest bytes →
    ∃ r, handleClientArrays t me (.data bytes) rest = .ok r ∧ r.tree = t ∧ r.sent = []

theorem handleClientArrays_ok_iff (t : FileTree) (me : PeerID) (rest : List RecvResult) :
    (∃ r, handleClientArrays t me (.data bytes) rest = .ok r) ↔ ∃ r, parseArrays bytes = .ok r := by
  rw [handleClientArrays]
  constructor
  · intro h
    obtain ⟨r, hr⟩ := h
    obtain ⟨request, hrequest, -⟩ := bind_eq_ok.mp hr
    exact ⟨request, hrequest⟩
  · intro h
    obtain ⟨request, hrequest⟩ := h
    simp only [hrequest, bind, Except.bind]
    split
    · exact ⟨_, rfl⟩
    · split
      · exact ⟨_, rfl⟩
      · exact ⟨_, rfl⟩

theorem convert_eq_ok {α : Type} {x : Except Fault α} {a : α} : convert x = .ok a ↔ x = .ok a := by
  cases x with
  | error f =>
      constructor
      · intro h
        cases h
      · intro h
        cases h
  | ok b =>
      rw [convert, Except.ok.injEq, Except.ok.injEq]

theorem parseArrays_ok_iff (h : bytes.length ≤ msgBufSize) :
    (∃ r, parseArrays bytes = .ok r) ↔ bytes.length < msgBufSize ∧ IsRequest bytes := by
  rw [← parseRequest_ok_iff]
  rcases Nat.lt_or_ge bytes.length msgBufSize with hlt | hge
  · simp only [parseArrays_eq hlt, convert_eq_ok, hlt, true_and]
  · rw [parseArrays_full (Nat.le_antisymm h hge)]
    constructor
    · intro h
      obtain ⟨r, hr⟩ := h
      cases hr
    · intro h
      obtain ⟨hlt, -⟩ := h
      omega

/-- `HandleClient` is safe on a request if and only if the request leaves a byte of the array
free and is well-formed. -/
theorem parses_safely_iff (h : bytes.length ≤ msgBufSize) :
    ParsesSafely t me rest bytes ↔ bytes.length < msgBufSize ∧ IsRequest bytes := by
  rw [← parseArrays_ok_iff h, ← handleClientArrays_ok_iff t me rest]
  constructor
  · intro hsafe
    exact hsafe.safe
  · intro hok
    refine ⟨hok, ?_⟩
    intro hno
    rw [handleClientArrays_ok_iff, parseArrays_ok_iff h] at hok
    exact absurd hok.2 hno

theorem parses_safely_iff_download :
    ParsesSafely newDirectory 1 [] (createRequestHeader .requestDownloadFile ['a']) :=
  (parses_safely_iff (by decide)).mpr ⟨by decide, by decide, 0, by decide⟩

/-- What the client sends fills the array. -/
theorem frame_not_safe : ¬∀ bytes, bytes.length ≤ msgBufSize →
    ParsesSafely newDirectory 1 [] bytes := by
  intro hall
  have hlen : (pad msgBufSize '\x00' (createRequestHeader .requestDownloadFile ['a'])).length =
      msgBufSize := length_pad (by decide)
  have hok := (hall _ (Nat.le_of_eq hlen)).safe
  rw [handleClientArrays_ok_iff, parseArrays_full hlen] at hok
  obtain ⟨r, hr⟩ := hok
  cases hr

end Serve

end P2PFileSharing
