import P2PFileSharing.Model.PeerClient

/-!
# Messages as values

What travels between peers, without the text: a flooded message asks for
something on behalf of its originator, and a hit travels back. Each value has
the fields of its text in the source's order, and the text is those fields
joined by newlines.

The texts determine the values only for numbers that fit the machine types and
names that are not empty and carry no newline, and a handler can take one from a
TTL or a factor that is positive; that is what `Valid` says, and every value a run
of the network creates is valid.
-/

namespace P2PFileSharing

/-- What a flooded message asks for: fields 6 and up of its text. -/
inductive Request
  | query (filename : Str)
  | invQuery (filename : Str) (replicateFactor : Int)
  | conTestQuery (requirement : Int)
  | conTestObtain (requirement : Int) (variant : Nat)
  deriving DecidableEq

/-- A flooded message. -/
structure Query where
  id : SMessageID
  timeToLive : Int
  sender : PeerID
  request : Request
  deriving DecidableEq

/-- The two kinds of hit; only a query hit repeats the filename. -/
inductive HitKind
  | query (filename : Str)
  | invQuery
  deriving DecidableEq

/-- A hit on its way back to the originator of the query. -/
structure Hit where
  kind : HitKind
  id : SMessageID
  timeToLive : Int
  origin : PeerID
  ip : Str
  deriving DecidableEq

inductive Message
  | query (x : Query)
  | hit (h : Hit)
  deriving DecidableEq

/-! ## The fields of the texts -/

/-- The handler that deals with a request. -/
def Request.handler : Request → Handler
  | .query _ => .query
  | .invQuery _ _ => .invQuery
  | .conTestQuery _ => .conTestQuery
  | .conTestObtain _ _ => .conTestObtain

/-- Field 0. -/
def Request.type : Request → Str
  | .query _ => peerMsgQuery
  | .invQuery _ _ => peerMsgInvQuery
  | .conTestQuery _ => peerMsgConTestQuery
  | .conTestObtain _ _ => peerMsgTestObtain2

/-- Fields 6 and up. -/
def Request.args : Request → List Str
  | .query filename => [filename]
  | .invQuery filename factor => [filename, intToString factor]
  | .conTestQuery requirement => [intToString requirement]
  | .conTestObtain requirement variant => [intToString requirement, natToString variant]

/-- The filename a query or an inv_query is about. -/
def Request.filename? : Request → Option Str
  | .query filename => some filename
  | .invQuery filename _ => some filename
  | _ => none

/-- Fields 0 to 5. -/
def headFields (type : Str) (id : SMessageID) (timeToLive : Int) (sender : PeerID) : List Str :=
  [type, intToString id.peerId, natToString id.msgId, intToString id.timestamp,
    intToString timeToLive, intToString sender]

def Query.fields (x : Query) : List Str :=
  headFields x.request.type x.id x.timeToLive x.sender ++ x.request.args

def HitKind.type : HitKind → Str
  | .query _ => peerMsgQueryHit
  | .invQuery => peerMsgInvQueryHit

def HitKind.args : HitKind → List Str
  | .query filename => [filename]
  | .invQuery => []

def Hit.fields (h : Hit) : List Str :=
  headFields h.kind.type h.id h.timeToLive h.origin ++ h.ip :: h.kind.args

def Message.fields : Message → List Str
  | .query x => x.fields
  | .hit h => h.fields

def Query.text (x : Query) : Str := joinFields x.fields

def Hit.text (h : Hit) : Str := joinFields h.fields

def Message.text : Message → Str
  | .query x => x.text
  | .hit h => h.text

def Message.id : Message → SMessageID
  | .query x => x.id
  | .hit h => h.id

/-! ## Valid values -/

/-- A TTL or a factor that is not used up. -/
def IsCount (n : Int) : Prop := 1 ≤ n ∧ n < 2 ^ 31

instance (n : Int) : Decidable (IsCount n) := inferInstanceAs (Decidable (_ ∧ _))

theorem IsCount.isInt {n : Int} (h : IsCount n) : IsInt n := by
  obtain ⟨hle, hlt⟩ := h
  exact ⟨by omega, hlt⟩

/-- Such a number gets smaller by one. -/
theorem IsCount.wrapInt_sub_one {n : Int} (h : IsCount n) : wrapInt (n - 1) = n - 1 := by
  obtain ⟨hle, hlt⟩ := h
  exact wrapInt_of_isInt ⟨by omega, by omega⟩

def SMessageID.Valid (id : SMessageID) : Prop :=
  IsInt id.peerId ∧ id.msgId < counterLimit ∧ IsInt64 id.timestamp

def Request.Valid : Request → Prop
  | .query filename => ValidName filename
  | .invQuery filename factor => ValidName filename ∧ IsCount factor
  | .conTestQuery requirement => IsInt requirement
  | .conTestObtain requirement _ => IsInt requirement

def Query.Valid (x : Query) : Prop :=
  x.id.Valid ∧ IsCount x.timeToLive ∧ IsInt x.sender ∧ x.request.Valid

def HitKind.Valid : HitKind → Prop
  | .query filename => ValidName filename
  | .invQuery => True

def Hit.Valid (h : Hit) : Prop :=
  h.id.Valid ∧ IsCount h.timeToLive ∧ IsInt h.origin ∧ ValidName h.ip ∧ h.kind.Valid

def Message.Valid : Message → Prop
  | .query x => x.Valid
  | .hit h => h.Valid

/-! ## What handlers do to them -/

/-- The request as an inv_query's handler passes it on. -/
def Request.decrease : Request → Request
  | .invQuery filename factor => .invQuery filename (factor - 1)
  | r => r

/-- Whether the factor of an inv_query allows another hop. -/
def Request.exhausted : Request → Bool
  | .invQuery _ factor => decide (factor - 1 ≤ 0)
  | _ => false

/-- The copy a handler relays, if any is left to relay. -/
def Query.relayed (x : Query) (me : PeerID) : Option Query :=
  if x.request.exhausted ∨ x.timeToLive - 1 ≤ 0 then none
  else
    some
      { id := x.id, timeToLive := x.timeToLive - 1, sender := me,
        request := x.request.decrease }

end P2PFileSharing
