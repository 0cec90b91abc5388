import P2PFileSharing.Proofs.FileTransfer

/-!
# Where the header frame ends

The bytes of a push are a frame of `MSG_BUF_SIZE` bytes and the file. `HandleClient`
reads the frame with one `recv` and takes for granted that it gets all of it: whatever of
the frame comes later is written to the file.
-/

namespace P2PFileSharing

variable {t : FileTree} {me : PeerID} {f frame content first : Str} {rest : List Str}

/-- The connection is served, and the file of that name then holds these bytes. -/
def StoresPush (t : FileTree) (me : PeerID) (f content first : Str) (rest : List Str) : Prop :=
  ∃ r, handleClient t me (.data first) (rest.map .data) = .ok r ∧
    r.tree.readFile (receivePath me f) = some content

theorem requestFrame_eq (h : requestFrame .requestPushFile f = some frame) :
    ∃ filler, frame = createRequestHeader .requestPushFile f ++ filler ∧ '\n' ∉ filler ∧
      frame.length = msgBufSize := by
  rw [requestFrame] at h
  split at h
  · next hfit =>
      rw [← Option.some.inj h]
      refine ⟨_, rfl, ?_, length_pad hfit⟩
      intro hmem
      exact absurd (List.eq_of_mem_replicate hmem) (by decide)
  · cases h

/-- What is stored once the header has arrived with the first bytes. -/
theorem stores_of_header {filler : Str} (hf : '\n' ∉ f) (hfill : '\n' ∉ filler)
    (hfirst : first = createRequestHeader .requestPushFile f ++ filler)
    (hrest : ∀ chunk ∈ rest, chunk ≠ [])
    (hopen : ((ensureDir t (receiveDir me)).openTrunc (receivePath me f)).isSome) :
    StoresPush t me f content first rest ↔ rest.flatten = content := by
  have hread : (receiveFile t me f (rest.map .data)).readFile (receivePath me f) =
      some rest.flatten := by
    rw [readFile_receiveFile hopen, receivedBytes_chunks hrest]
  constructor
  · intro h
    obtain ⟨r, hr, hcontent⟩ := h
    rw [hfirst, handleClient_request hf hfill] at hr
    cases hr
    rw [hread] at hcontent
    exact Option.some.inj hcontent
  · intro h
    refine ⟨_, by rw [hfirst]; exact handleClient_request hf hfill, ?_⟩
    rw [← h]
    exact hread

/-- A push stores exactly the file if and only if the first `recv` returns the whole frame. -/
theorem stores_push_iff (hf : '\n' ∉ f) (hframe : requestFrame .requestPushFile f = some frame)
    (hstream : first ++ rest.flatten = frame ++ content) (hfirst : first.length ≤ msgBufSize)
    (hrest : ∀ chunk ∈ rest, chunk ≠ [])
    (hopen : ((ensureDir t (receiveDir me)).openTrunc (receivePath me f)).isSome) :
    StoresPush t me f content first rest ↔ first.length = msgBufSize := by
  obtain ⟨filler, rfl, hfill, hlen⟩ := requestFrame_eq hframe
  have htotal := congrArg List.length hstream
  rw [List.length_append, List.length_append, hlen] at htotal
  by_cases hheader : (createRequestHeader .requestPushFile f).length ≤ first.length
  · -- the header is there, and so is as much of the filler as arrived with it
    have hpre : first = createRequestHeader .requestPushFile f ++
        filler.take (first.length - (createRequestHeader .requestPushFile f).length) := by
      have htake := congrArg (List.take first.length) hstream
      rw [List.take_left, List.take_append_of_le_length (by omega), List.take_append,
        List.take_of_length_le hheader] at htake
      exact htake
    rw [stores_of_header hf (fun h => hfill (List.mem_of_mem_take h)) hpre hrest hopen]
    constructor
    · intro h
      rw [h] at htotal
      omega
    · intro h
      exact (List.append_inj hstream (by omega)).2
  · -- a part of the header
    obtain ⟨tail, htail⟩ : first <+: createRequestHeader .requestPushFile f := by
      refine List.prefix_of_prefix_length_le ⟨rest.flatten, hstream⟩ ?_ (by omega)
      rw [List.append_assoc]
      exact List.prefix_append _ _
    have hne : tail ≠ [] := by
      intro h
      obtain rfl := h
      rw [List.append_nil] at htail
      rw [htail] at hheader
      exact hheader (Nat.le_refl _)
    constructor
    · intro h
      obtain ⟨r, hr, -⟩ := h
      exact absurd hr (handleClient_unfinished hf htail hne)
    · intro h
      rw [List.length_append] at hlen
      omega

/-- A push of the file `a`: its header, and what fills up the frame. -/
def pushHeader : Str := createRequestHeader .requestPushFile ['a']

def pushFiller : Str := List.replicate (msgBufSize - pushHeader.length) '\x00'

theorem requestFrame_pushHeader :
    requestFrame .requestPushFile ['a'] = some (pushHeader ++ pushFiller) := by
  have hfit : (createRequestHeader .requestPushFile ['a']).length ≤ msgBufSize := by decide
  rw [requestFrame, if_pos hfit]
  rfl

theorem stores_push_iff_wholeFrame :
    StoresPush newDirectory 1 ['a'] "hi".toList (pushHeader ++ pushFiller) ["hi".toList] :=
  have hlen : (pushHeader ++ pushFiller).length = msgBufSize := length_pad (by decide)
  (stores_push_iff (by decide) requestFrame_pushHeader (by rw [List.flatten_singleton])
    (Nat.le_of_eq hlen) (by decide) (by decide)).mpr hlen

/-- The first `recv` returns the header alone, and the filler goes to the file. -/
theorem stores_filler :
    '\n' ∉ ['a'] ∧ requestFrame .requestPushFile ['a'] = some (pushHeader ++ pushFiller) ∧
      pushHeader ++ [pushFiller ++ "hi".toList].flatten =
        (pushHeader ++ pushFiller) ++ "hi".toList ∧
      ¬StoresPush newDirectory 1 ['a'] "hi".toList pushHeader [pushFiller ++ "hi".toList] := by
  have hne : ∀ chunk ∈ [pushFiller ++ "hi".toList], chunk ≠ [] := by
    intro chunk hc
    rw [List.mem_singleton.mp hc]
    exact List.append_ne_nil_of_right_ne_nil _ (List.cons_ne_nil _ _)
  refine ⟨by decide, requestFrame_pushHeader, ?_, ?_⟩
  · rw [List.flatten_singleton, List.append_assoc]
  · intro hstores
    have h := (stores_of_header (by decide) List.not_mem_nil (List.append_nil pushHeader).symm hne
      (by decide)).mp hstores
    rw [List.flatten_singleton] at h
    have hlen := congrArg List.length h
    rw [List.length_append, pushFiller, List.length_replicate] at hlen
    exact absurd hlen (by decide)

end P2PFileSharing
