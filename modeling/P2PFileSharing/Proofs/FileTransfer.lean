import P2PFileSharing.Model.FileTransfer
import P2PFileSharing.Proofs.Codec

/-!
# What a transfer leaves in a file, what a request parses to

Both receive loops leave at the path they opened what was there when they had opened it,
followed by what they received. A request is parsed right as soon as its whole header has
arrived, whatever follows; before that the second newline is missing, and `HandleClient`
reads an entry of `pos` that it never assigned.
-/

namespace P2PFileSharing

/-! ## The receive loop -/

/-- The bytes a receive loop takes. -/
def receivedBytes : List RecvResult → Str
  | [] => []
  | .failed :: _ => []
  | .data bytes :: rest => if bytes = [] then [] else bytes ++ receivedBytes rest

theorem receivedBytes_append {chunks : List Str} (h : ∀ chunk ∈ chunks, chunk ≠ [])
    (results : List RecvResult) :
    receivedBytes (chunks.map .data ++ results) = chunks.flatten ++ receivedBytes results := by
  induction chunks with
  | nil => rfl
  | cons chunk rest ih =>
      rw [List.map_cons, List.cons_append, receivedBytes, if_neg (h chunk List.mem_cons_self),
        List.flatten_cons, ih fun c hc => h c (List.mem_cons_of_mem _ hc), List.append_assoc]

theorem receivedBytes_chunks {chunks : List Str} (h : ∀ chunk ∈ chunks, chunk ≠ []) :
    receivedBytes (chunks.map .data) = chunks.flatten := by
  have happ := receivedBytes_append h []
  rw [List.append_nil, receivedBytes, List.append_nil] at happ
  exact happ

section Loop

variable {t : FileTree} {p : List (List Char)} {path : Str}

theorem node?_writeReceived {results : List RecvResult} (q : List (List Char)) :
    ∀ {t : FileTree} {held : Str}, t.node? p = some (.file held) →
    (writeReceived p t results).node? q =
      if q = p then some (.file (held ++ receivedBytes results)) else t.node? q := by
  induction results with
  | nil =>
      intro t held h
      rw [writeReceived, receivedBytes, List.append_nil]
      split
      · next hq => rw [hq, h]
      · rfl
  | cons result rest ih =>
      intro t held h
      have hp : p ≠ [] := FileTree.ne_nil_of_node? (by rw [h]; nofun)
      have hdone : t.node? q = if q = p then some (.file (held ++ [])) else t.node? q := by
        rw [List.append_nil]
        split
        · next hq => rw [hq, h]
        · rfl
      cases result with
      | failed => exact hdone
      | data bytes =>
          rw [writeReceived, receivedBytes]
          split
          · exact hdone
          · have happ : t.append p bytes = t.setNode p (.file (held ++ bytes)) := by
              rw [FileTree.append, h]
            have hnew : (t.setNode p (.file (held ++ bytes))).node? p =
                some (.file (held ++ bytes)) := by
              rw [FileTree.node?_setNode hp, if_pos rfl]
            rw [happ, ih hnew, FileTree.node?_setNode hp, List.append_assoc]
            split
            · rfl
            · rfl

theorem readFile_writeReceived {results : List RecvResult} {held : Str}
    (hplace : t.place path = some p) (h : t.node? p = some (.file held)) :
    (writeReceived p t results).readFile path = some (held ++ receivedBytes results) := by
  have hdir : ∀ q, (writeReceived p t results).node? q = some .dir ↔ t.node? q = some .dir := by
    intro q
    rw [node?_writeReceived q h]
    split
    · next hq =>
        rw [hq, h]
        exact ⟨nofun, nofun⟩
    · exact Iff.rfl
  have hsame : (writeReceived p t results).place path = t.place path :=
    FileTree.resolve_congr hdir _ _
  rw [FileTree.readFile, FileTree.lookup, hsame, hplace, Option.bind_some,
    node?_writeReceived p h, if_pos rfl]

theorem readFile_openTrunc {u : FileTree} {results : List RecvResult}
    (h : t.openTrunc path = some (p, u)) :
    (writeReceived p u results).readFile path = some (receivedBytes results) := by
  obtain ⟨hplace, hp, rfl⟩ := FileTree.openTrunc_spec h
  have hempty : (t.setNode p (.file [])).node? p = some (.file []) := by
    rw [FileTree.node?_setNode (FileTree.ne_nil_of_node? hp), if_pos rfl]
  exact readFile_writeReceived (by rw [FileTree.place_setNode hp, hplace]) hempty

theorem readFile_appendable {held : Str} {results : List RecvResult}
    (h : t.appendable path = some (p, held)) :
    (writeReceived p (t.setNode p (.file held)) results).readFile path =
      some (held ++ receivedBytes results) := by
  obtain ⟨hplace, hp⟩ := FileTree.appendable_spec h
  refine readFile_writeReceived ?_ ?_
  · rw [FileTree.place_setNode hp, hplace]
  · rw [FileTree.node?_setNode (FileTree.ne_nil_of_node? hp), if_pos rfl]

end Loop

/-! ## Reading -/

theorem flatten_freads (content : Str) : (freads content).flatten = content := by
  have hpos : 0 < fileTransferPacketSize := by decide
  rw [freads, flatten_pieces]
  refine List.take_of_length_le ?_
  have hdiv := Nat.lt_div_mul_add (a := content.length) hpos
  rw [Nat.add_mul, Nat.one_mul]
  omega

/-- A packet that is not full is the last. -/
theorem freads_eq (content : Str) :
    freads content = content.take fileTransferPacketSize ::
      if content.length < fileTransferPacketSize then []
      else freads (content.drop fileTransferPacketSize) := by
  have hpos : 0 < fileTransferPacketSize := by decide
  rw [freads, List.range_succ_eq_map, List.map_cons, Nat.zero_mul, List.drop_zero, List.map_map]
  congr 1
  split
  · next hlt =>
      rw [Nat.div_eq_of_lt hlt]
      rfl
  · next hge =>
      have hdiv : content.length / fileTransferPacketSize =
          (content.length - fileTransferPacketSize) / fileTransferPacketSize + 1 :=
        Nat.div_eq_sub_div hpos (by omega)
      rw [freads, List.length_drop, hdiv]
      refine List.map_congr_left fun i _ => ?_
      rw [Function.comp_apply, List.drop_drop, Nat.succ_mul, Nat.add_comm]

/-! ## Downloads -/

section Download

variable {t : FileTree} {me : PeerID} {obtainNum : Int} {filename : Str}
  {results : List RecvResult}

theorem requeued_handleObtainResponse :
    (handleObtainResponse t me obtainNum filename results).requeued = none := by
  delta handleObtainResponse
  dsimp only
  split
  · rfl
  · rfl

/-- A download leaves in its file what was there and what came. -/
theorem readFile_handleObtainResponse {content : Str} :
    (handleObtainResponse t me obtainNum filename results).tree.readFile
        (obtainPath me obtainNum filename) = some content ↔
      ∃ p held, (ensureDir t (receiveDir me)).appendable (obtainPath me obtainNum filename) =
        some (p, held) ∧ held ++ receivedBytes results = content := by
  delta handleObtainResponse
  simp only [FileTree.openAppend]
  cases hopen : (ensureDir t (receiveDir me)).appendable (obtainPath me obtainNum filename) with
  | none =>
      constructor
      · intro h
        obtain ⟨p, hp⟩ := FileTree.appendable_of_readFile h
        rw [hopen] at hp
        cases hp
      · intro h
        obtain ⟨p, held, hp, -⟩ := h
        cases hp
  | some opened =>
      obtain ⟨p, held⟩ := opened
      show (writeReceived p _ results).readFile _ = some content ↔ _
      rw [readFile_appendable hopen, Option.some.injEq]
      constructor
      · intro h
        exact ⟨p, held, rfl, h⟩
      · intro h
        obtain ⟨p', held', heq, h⟩ := h
        cases heq
        exact h

end Download

/-! ## Requests -/

section Request

variable {f : Str}

theorem newlines_append (xs ys : Str) :
    newlines (xs ++ ys) = newlines xs ++ (newlines ys).map fun i => xs.length + i := by
  rw [newlines, newlines, newlines, List.length_append, List.range_add, List.filter_append,
    List.filter_map]
  congr 1
  · refine List.filter_congr fun i hi => ?_
    rw [List.getElem?_append_left (List.mem_range.mp hi)]
  · congr 1
    refine List.filter_congr fun i _ => ?_
    rw [Function.comp_apply, List.getElem?_append_right (Nat.le_add_right _ _),
      Nat.add_sub_cancel_left]

theorem newlines_eq_nil {xs : Str} (h : '\n' ∉ xs) : newlines xs = [] := by
  rw [newlines, List.filter_eq_nil_iff]
  intro i _ hi
  exact h (List.mem_of_getElem? (of_decide_eq_true hi))

/-- A header before its last newline. -/
theorem newlines_unfinished (hf : '\n' ∉ f) : newlines ('1' :: '\n' :: f) = [1] := by
  have happ := newlines_append ['1', '\n'] f
  rw [newlines_eq_nil hf, List.map_nil, List.append_nil] at happ
  exact happ

theorem newlines_header {c : Char} (hc : newlines [c, '\n'] = [1]) (hf : '\n' ∉ f) {tail : Str}
    (ht : '\n' ∉ tail) : newlines ([c, '\n'] ++ (f ++ ('\n' :: tail))) = [1, f.length + 2] := by
  have hlast : newlines ['\n'] = [0] := rfl
  have htail : newlines ('\n' :: tail) = [0] := by
    rw [show '\n' :: tail = ['\n'] ++ tail from rfl, newlines_append, newlines_eq_nil ht, hlast]
    rfl
  rw [newlines_append, hc, newlines_append, newlines_eq_nil hf, htail]
  show [1, 2 + (f.length + 0)] = _
  rw [Nat.add_zero, Nat.add_comm]

/-- `HandleClient` finds the type and the filename in a header. -/
theorem parseRequest_header (reqType : ERequestType) (hf : '\n' ∉ f) {tail : Str}
    (ht : '\n' ∉ tail) :
    parseRequest (createRequestHeader reqType f ++ tail) = .ok (reqType.toInt, f) := by
  obtain ⟨c, hheader, hc, hstoi⟩ : ∃ c, createRequestHeader reqType f ++ tail =
      [c, '\n'] ++ (f ++ ('\n' :: tail)) ∧ newlines [c, '\n'] = [1] ∧
        stoi [c] = .ok reqType.toInt := by
    cases reqType with
    | requestDownloadFile =>
        refine ⟨'0', ?_, rfl, by decide⟩
        show '0' :: '\n' :: ((f ++ ['\n']) ++ tail) = _
        rw [List.append_assoc]
        rfl
    | requestPushFile =>
        refine ⟨'1', ?_, rfl, by decide⟩
        show '1' :: '\n' :: ((f ++ ['\n']) ++ tail) = _
        rw [List.append_assoc]
        rfl
  rw [hheader]
  have hpos : (newlines ([c, '\n'] ++ (f ++ ('\n' :: tail)))).take packetSplitNumRequest =
      [1, f.length + 2] := by
    rw [newlines_header hc hf ht]
    rfl
  have hname : (([c, '\n'] ++ (f ++ ('\n' :: tail))).drop (1 + 1)).take (f.length + 2 - 1 - 1) =
      f := by
    show (f ++ ('\n' :: tail)).take f.length = f
    rw [List.take_left]
  have htype : stoi (([c, '\n'] ++ (f ++ ('\n' :: tail))).take 1) = .ok reqType.toInt := hstoi
  have hpos₀ : assigned [1, f.length + 2] 0 = .ok 1 := rfl
  have hpos₁ : assigned [1, f.length + 2] 1 = .ok (f.length + 2) := rfl
  simp only [parseRequest, hpos, hpos₀, hpos₁, htype, hname, bind, Except.bind, pure, Except.pure]

theorem parseRequest_request (hf : '\n' ∉ f) {tail : Str} (ht : '\n' ∉ tail) :
    parseRequest (createRequestHeader .requestPushFile f ++ tail) = .ok (1, f) :=
  parseRequest_header .requestPushFile hf ht

/-- As long as the header's last byte is missing there is at most one newline. -/
theorem parseRequest_unfinished (hf : '\n' ∉ f) {first tail : Str}
    (h : first ++ tail = createRequestHeader .requestPushFile f) (ht : tail ≠ []) {n : Int}
    {name : Str} : parseRequest first ≠ .ok (n, name) := by
  obtain ⟨init, last, rfl⟩ := List.eq_nil_or_concat tail |>.resolve_left ht
  have hsplit : createRequestHeader .requestPushFile f = ('1' :: '\n' :: f) ++ ['\n'] := rfl
  rw [hsplit, List.concat_eq_append, ← List.append_assoc] at h
  have hinit : first ++ init = '1' :: '\n' :: f := (List.append_inj' h rfl).1
  have hcount : newlines first ++ (newlines init).map (fun i => first.length + i) = [1] := by
    rw [← newlines_append, hinit, newlines_unfinished hf]
  have hshort : (newlines first).length ≤ 1 := by
    have hlen := congrArg List.length hcount
    rw [List.length_append, List.length_singleton] at hlen
    omega
  have hpos : assigned ((newlines first).take packetSplitNumRequest) 1 = .error .missingField := by
    rw [assigned, List.getElem?_eq_none]
    rw [List.length_take]
    omega
  intro hok
  rw [parseRequest] at hok
  simp only [hpos, bind, Except.bind] at hok
  split at hok
  · cases hok
  · split at hok
    · cases hok
    · cases hok

variable {t : FileTree} {me : PeerID} {rest : List RecvResult}

theorem handleClient_request (hf : '\n' ∉ f) {tail : Str} (ht : '\n' ∉ tail) :
    handleClient t me (.data (createRequestHeader .requestPushFile f ++ tail)) rest =
      .ok ⟨receiveFile t me f rest, ["st".toList]⟩ := by
  rw [handleClient, parseRequest_request hf ht]
  rfl

theorem handleClient_unfinished (hf : '\n' ∉ f) {first tail : Str}
    (h : first ++ tail = createRequestHeader .requestPushFile f) (ht : tail ≠ []) {r : Handled} :
    handleClient t me (.data first) rest ≠ .ok r := by
  rw [handleClient]
  cases hparse : parseRequest first with
  | error e => nofun
  | ok request => exact absurd hparse (parseRequest_unfinished hf h ht)

theorem readFile_receiveFile
    (hopen : ((ensureDir t (receiveDir me)).openTrunc (receivePath me f)).isSome) :
    (receiveFile t me f rest).readFile (receivePath me f) = some (receivedBytes rest) := by
  obtain ⟨⟨p, u⟩, hu⟩ := Option.isSome_iff_exists.mp hopen
  delta receiveFile
  simp only [hu]
  exact readFile_openTrunc hu

end Request

end P2PFileSharing
