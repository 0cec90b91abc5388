import P2PFileSharing.Proofs.Codec

/-!
# What a message has to look like

Each of the six messages has a fixed number of fields, some of them numbers that the
handlers convert. A text is well formed if its command is one of the six and its fields are
that many, each number one that its conversion reads. The text of every valid message is.
-/

namespace P2PFileSharing

variable {vec : List Str} {i : Nat}

/-- What is in a field: any text, or a number for `std::stoi`, `std::stoull`, `std::stoll`. -/
inductive FieldKind
  | text | int | counter | time
  deriving DecidableEq, Repr

def FieldKind.Accepts : FieldKind → Str → Prop
  | .text, _ => True
  | .int, s => ∃ n, stoi s = .ok n
  | .counter, s => ∃ n, stoull s = .ok n
  | .time, s => ∃ n, stoll s = .ok n

/-- The two hits. -/
inductive HitType
  | queryHit | invQueryHit
  deriving DecidableEq, Repr

def HitKind.hitType : HitKind → HitType
  | .query _ => .queryHit
  | .invQuery => .invQueryHit

/-- The six messages, by the function that handles them. -/
inductive MessageKind
  | flood (handler : Handler)
  | hit (type : HitType)
  deriving DecidableEq, Repr

/-- The comparisons of `HandleMessageThread`. -/
def messageKind (message : Str) : Option MessageKind :=
  let command := message.takeWhile fun c => c ≠ peerMsgTypeDelim
  if command = peerMsgQuery then some (.flood .query)
  else if command = peerMsgInvQuery then some (.flood .invQuery)
  else if command = peerMsgQueryHit then some (.hit .queryHit)
  else if command = peerMsgInvQueryHit then some (.hit .invQueryHit)
  else if command = peerMsgConTestQuery then some (.flood .conTestQuery)
  else if command = peerMsgTestObtain2 then some (.flood .conTestObtain)
  else none

/-- Fields 0 to 5: type, id, TTL, sender. -/
def headFormat : List FieldKind := [.text, .int, .counter, .time, .int, .int]

/-- Fields 6 and up, as `CreateQueryMessage` and its siblings push them back. -/
def MessageKind.args : MessageKind → List FieldKind
  | .flood .query => [.text]
  | .flood .invQuery => [.text, .int]
  | .flood .conTestQuery => [.int]
  | .flood .conTestObtain => [.int, .text]
  | .hit .queryHit => [.text, .text]
  | .hit .invQueryHit => [.text]

/-- As many fields as there should be, and in each what should be there. -/
def MessageKind.Fits (kind : MessageKind) (vec : List Str) : Prop :=
  List.Forall₂ FieldKind.Accepts (headFormat ++ kind.args) vec

/-- A well-formed query, inv_query, hit or test message. -/
def WellFormed (message : Str) : Prop :=
  ∃ kind, messageKind message = some kind ∧ kind.Fits (splitFields message)

/-! ## Reading the fields -/

theorem accepts_field {format : List FieldKind} {fieldKind : FieldKind}
    (h : List.Forall₂ FieldKind.Accepts format vec) (hk : format[i]? = some fieldKind) :
    ∃ s, field vec i = .ok s ∧ fieldKind.Accepts s := by
  induction h generalizing i with
  | nil => cases hk
  | cons hs _ ih =>
      cases i with
      | zero =>
          injection hk with hk
          rw [← hk]
          exact ⟨_, rfl, hs⟩
      | succ i => exact ih hk

/-- The id can be read. -/
theorem MessageKind.Fits.parseMessageId {kind : MessageKind} (h : kind.Fits vec) :
    ∃ id, parseMessageId vec = .ok id := by
  obtain ⟨s₁, h₁, peerId, hpeer⟩ := accepts_field (i := 1) h rfl
  obtain ⟨s₂, h₂, msgId, hmsg⟩ := accepts_field (i := 2) h rfl
  obtain ⟨s₃, h₃, timestamp, htime⟩ := accepts_field (i := 3) h rfl
  refine ⟨⟨peerId, msgId, timestamp⟩, ?_⟩
  simp only [P2PFileSharing.parseMessageId, h₁, h₂, h₃, hpeer, hmsg, htime, bind, Except.bind]
  rfl

/-! ## Valid messages -/

theorem accepts_int {n : Int} (h : IsInt n) : FieldKind.int.Accepts (intToString n) :=
  ⟨n, stoi_intToString h⟩

theorem fits_head {kind : MessageKind} {type : Str} {id : SMessageID} {timeToLive : Int}
    {sender : PeerID} {args : List Str} (hid : id.Valid) (httl : IsInt timeToLive)
    (hsender : IsInt sender) (hargs : List.Forall₂ FieldKind.Accepts kind.args args) :
    kind.Fits (headFields type id timeToLive sender ++ args) := by
  obtain ⟨hpeer, hmsg, htime⟩ := hid
  exact .cons trivial (.cons (accepts_int hpeer) (.cons ⟨_, stoull_natToString hmsg⟩
    (.cons ⟨_, stoll_intToString htime⟩ (.cons (accepts_int httl)
      (.cons (accepts_int hsender) hargs)))))

theorem fits_query {x : Query} (hv : x.Valid) :
    (MessageKind.flood x.request.handler).Fits (splitFields x.text) := by
  rw [splitFields_query hv]
  obtain ⟨hid, httl, hsender, hr⟩ := hv
  refine fits_head hid httl.isInt hsender ?_
  cases hreq : x.request with
  | query f => exact .cons trivial .nil
  | invQuery f k =>
      rw [hreq] at hr
      exact .cons trivial (.cons (accepts_int hr.2.isInt) .nil)
  | conTestQuery n =>
      rw [hreq] at hr
      exact .cons (accepts_int hr) .nil
  | conTestObtain n v =>
      rw [hreq] at hr
      exact .cons (accepts_int hr) (.cons trivial .nil)

/-- The text of a valid message is well formed. -/
theorem wellFormed_text {m : Message} (hv : m.Valid) : WellFormed m.text := by
  cases m with
  | query x =>
      refine ⟨.flood x.request.handler, ?_, fits_query hv⟩
      have hcommand : x.text.takeWhile (fun c => c ≠ peerMsgTypeDelim) = x.request.type :=
        takeWhile_joinFields (newline_notMem_requestType _) _ _
      simp only [messageKind, Message.text, hcommand]
      cases x.request <;> rfl
  | hit h =>
      have hsplit := splitFields_hit hv
      obtain ⟨hid, httl, horigin, -, -⟩ := hv
      refine ⟨.hit h.kind.hitType, ?_, ?_⟩
      · have hcommand : h.text.takeWhile (fun c => c ≠ peerMsgTypeDelim) = h.kind.type :=
          takeWhile_joinFields (newline_notMem_hitType _) _ _
        simp only [messageKind, Message.text, hcommand]
        cases h.kind <;> rfl
      · rw [Message.text, hsplit]
        refine fits_head hid httl.isInt horigin ?_
        cases h.kind with
        | query f => exact .cons trivial (.cons trivial .nil)
        | invQuery => exact .cons trivial .nil

end P2PFileSharing
