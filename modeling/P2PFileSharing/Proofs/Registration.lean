import P2PFileSharing.Model.RegisterServer
import P2PFileSharing.Proofs.Codec

/-!
# What a step of the register server can do

A handler thread moves along its program points; the accept loop and `Run` move
along theirs. Once the flag is set there are as many keys as peers, and every
request names one of the peers, so no later insertion adds a key: the loop over
the map walks the same keys it started with.
-/

namespace P2PFileSharing

/-! ## Requests -/

theorem atoi_intToString (n : Int) : atoi (intToString n) = n := by
  obtain ⟨neg, m, hread, hval⟩ := readNumber_intToString n
  rw [atoi, hread]
  exact hval

theorem requestPeerId_registerRequest (id : PeerID) :
    requestPeerId (registerRequest id) = .ok id := by
  have hnot : '\n' ∉ registerRequestRegister := by decide
  have heq : registerRequest id = registerRequestRegister ++ '\n' :: intToString id := by
    rw [registerRequest, List.append_assoc]
    rfl
  have hmem : '\n' ∈ registerRequest id := by
    rw [heq]
    exact List.mem_append_right _ List.mem_cons_self
  have htake : (registerRequest id).takeWhile (fun c => c ≠ '\n') = registerRequestRegister := by
    rw [heq, takeWhile_append_sep hnot]
  have hdrop : (registerRequest id).dropWhile (fun c => c ≠ '\n') = '\n' :: intToString id := by
    rw [heq, dropWhile_append_sep hnot]
  rw [requestPeerId, if_pos hmem]
  simp only [htake, hdrop, if_true, List.tail_cons, atoi_intToString]

/-! ## Inversion -/

section

variable {n : Nat}

/-- What a step of a handler thread leaves behind. -/
inductive HandlerMove (n : Nat) (clientAddr : InAddr) (t : RegisterTables) (c : Connection) :
    HandlerPoint → RegisterTables → HandlerPoint → Prop
  | copy : HandlerMove n clientAddr t c .start t (.receive clientAddr)
  | receive {addr : InAddr} {id : PeerID} (h : requestPeerId c.request = .ok id) :
      HandlerMove n clientAddr t c (.receive addr) t (.register id addr)
  | reject {addr : InAddr} {f : Fault} (h : requestPeerId c.request = .error f) :
      HandlerMove n clientAddr t c (.receive addr) { t with fault := some f } (.receive addr)
  | register {id : PeerID} {addr : InAddr} :
      HandlerMove n clientAddr t c (.register id addr) (t.register n c id addr) (.wait id)
  | wake {id : PeerID} (h : t.allPeersRegistered = true) :
      HandlerMove n clientAddr t c (.wait id) t (.respond id [] 0)
  | entry {id : PeerID} {m : Str} {k : Nat} {client : PeerID × SClientInfo}
      (h : t.clientInfo.entries[k]? = some client) :
      HandlerMove n clientAddr t c (.respond id m k) t (.respond id (m ++ infoLine client) (k + 1))
  | send {id : PeerID} {m : Str} {k : Nat} (h : t.clientInfo.entries[k]? = none) :
      HandlerMove n clientAddr t c (.respond id m k)
        { t with sent := t.sent ++ [(id, responseText registerResponseAllPeers m)] } (.count id)
  | count {id : PeerID} :
      HandlerMove n clientAddr t c (.count id)
        { t with threadExitCount := t.threadExitCount + 1 } (.done id)

theorem handlerStep_move {clientAddr : InAddr} {t t' : RegisterTables} {c : Connection}
    {point point' : HandlerPoint}
    (h : handlerStep n clientAddr t c point = some (t', point')) :
    HandlerMove n clientAddr t c point t' point' := by
  cases point with
  | start =>
      cases h
      exact .copy
  | receive addr =>
      rw [handlerStep] at h
      split at h
      · next id hid =>
          cases h
          exact .receive hid
      · next f hf =>
          cases h
          exact .reject hf
  | register id addr =>
      cases h
      exact .register
  | wait id =>
      rw [handlerStep] at h
      split at h
      · next hflag =>
          cases h
          exact .wake hflag
      · cases h
  | respond id m k =>
      rw [handlerStep] at h
      split at h
      · next client hk =>
          cases h
          exact .entry hk
      · next hk =>
          cases h
          exact .send hk
  | count id =>
      cases h
      exact .count
  | done id => cases h

/-- What a step of the process leaves behind. -/
inductive RegisterMove (n : Nat) (s : RegisterServer) : RegisterLabel → RegisterServer → Prop
  | accept (c : Connection) (hacc : s.accepting = .accept) :
      RegisterMove n s (.accept c)
        { s with clientAddr := c.addr, accepting := .accepted c, accepted := s.accepted ++ [c] }
  | start (c : Connection) (hacc : s.accepting = .accepted c) :
      RegisterMove n s .startHandler
        { s with accepting := .accept, handlers := s.handlers ++ [⟨c, .start⟩] }
  | refuse (c : Connection) (hacc : s.accepting = .accepted c) :
      RegisterMove n s .startHandler { s with accepting := .ended }
  | handler (i : Nat) (h : HandlerThread) {t : RegisterTables} {point : HandlerPoint}
      (hi : s.handlers[i]? = some h)
      (hm : HandlerMove n s.clientAddr s.tables h.connection h.point t point) :
      RegisterMove n s (.handler i)
        { s with tables := t, handlers := s.handlers.set i ⟨h.connection, point⟩ }
  | poll (hrun : s.run = .polling) (hgo : s.tables.threadExitCount < n) : RegisterMove n s .poll s
  | leave (hrun : s.run = .polling) (hge : n ≤ s.tables.threadExitCount) :
      RegisterMove n s .poll { s with run := .leaving }
  | exit (hrun : s.run = .leaving) : RegisterMove n s .exit { s with run := .exited }

theorem registerStep_move {s s' : RegisterServer} {l : RegisterLabel}
    (h : registerStep n s l = some s') : RegisterMove n s l s' := by
  unfold registerStep at h
  split at h
  · cases h
  · cases l with
    | accept c =>
        dsimp only at h
        split at h
        · next hacc =>
            cases h
            exact .accept c hacc
        · cases h
    | startHandler =>
        dsimp only at h
        split at h
        · next c hacc =>
            split at h
            · cases h
              exact .start c hacc
            · cases h
              exact .refuse c hacc
        · cases h
    | handler i =>
        dsimp only at h
        split at h
        · cases h
        · next hd hi =>
            split at h
            · cases h
            · next t point hstep =>
                cases h
                exact .handler i hd hi (handlerStep_move hstep)
    | poll =>
        dsimp only at h
        split at h
        · next hrun =>
            by_cases hgo : s.tables.threadExitCount < n
            · rw [RegisterTables.isKeepRunning, decide_eq_true hgo, if_pos rfl, ← hrun] at h
              cases h
              exact .poll hrun hgo
            · rw [RegisterTables.isKeepRunning, decide_eq_false hgo] at h
              cases h
              exact .leave hrun (Nat.le_of_not_lt hgo)
        · cases h
    | exit =>
        dsimp only at h
        split at h
        · next hrun =>
            cases h
            exact .exit hrun
        · cases h

end

end P2PFileSharing
