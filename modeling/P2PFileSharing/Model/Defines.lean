import P2PFileSharing.Lib.UnorderedMap

/-!
# `defines.h` and `defines.cpp`

The constants, the message ids, and the string functions every message goes
through. A string is the list of its characters. What the C++ standard library
does is modelled where the code depends on it: `std::stoi` and its siblings
skip blanks, take an optional sign and the longest run of digits, and throw on
no digits or on a value that does not fit; indexing a vector past its end is
undefined, which is a fault here and never a value.
-/

namespace P2PFileSharing

/-- `std::string`. -/
abbrev Str := List Char

/-- `typedef int PeerID`. -/
abbrev PeerID := Int

/-- `typedef unsigned long long MessageCounter`. -/
abbrev MessageCounter := Nat

/-- The ways a peer process stops: an escaped exception, a read past the end of
a vector, a failed assertion. -/
inductive Fault
  | invalidArgument | outOfRange | missingField | assertionFailed
  deriving DecidableEq, Repr

/-- The values of an `int`. -/
def IsInt (n : Int) : Prop := -2 ^ 31 ≤ n ∧ n < 2 ^ 31

/-- The values of an `int64_t`. -/
def IsInt64 (n : Int) : Prop := -2 ^ 63 ≤ n ∧ n < 2 ^ 63

/-- One more than the largest `unsigned long long`. -/
def counterLimit : Nat := 2 ^ 64

instance (n : Int) : Decidable (IsInt n) := inferInstanceAs (Decidable (_ ∧ _))

instance (n : Int) : Decidable (IsInt64 n) := inferInstanceAs (Decidable (_ ∧ _))

/-- What is left in an `int`: the build asks for no trap, and a sum that does not fit wraps
around. -/
def wrapInt (n : Int) : Int := n.bmod (2 ^ 32)

/-- What is left in an `int64_t`, likewise. -/
def wrapInt64 (n : Int) : Int := n.bmod (2 ^ 64)

theorem wrapInt_of_isInt {n : Int} (h : IsInt n) : wrapInt n = n := by
  obtain ⟨hle, hlt⟩ := h
  exact Int.bmod_eq_of_le (by omega) (by omega)

/-- Different `int`s stay different when the same is added to them. -/
theorem wrapInt_add_inj {k m n : Int} (hm : IsInt m) (hn : IsInt n)
    (h : wrapInt (k + m) = wrapInt (k + n)) : m = n := by
  have hmod : wrapInt m = wrapInt n := (Int.bmod_add_cancel_left k).mp h
  rwa [wrapInt_of_isInt hm, wrapInt_of_isInt hn] at hmod

/-- The smallest `int` is the only one that does not get smaller. -/
theorem wrapInt_sub_one {n : Int} (h : IsInt n) (hmin : n ≠ -2 ^ 31) : wrapInt (n - 1) = n - 1 := by
  obtain ⟨hle, hlt⟩ := h
  exact wrapInt_of_isInt ⟨by omega, by omega⟩

/-- An `int` is at most 0 after `--` if it was at most 1, unless it wrapped around. -/
theorem wrapInt_sub_one_le_zero {n : Int} (h : IsInt n) :
    wrapInt (n - 1) ≤ 0 ↔ n ≠ -2 ^ 31 ∧ n ≤ 1 := by
  by_cases hmin : n = -2 ^ 31
  · rw [hmin]
    decide
  · rw [wrapInt_sub_one h hmin]
    omega

/-! ## Constants -/

def peerMsgTypeDelim : Char := '\n'

def peerMsgQuery : Str := "peer_query".toList

def peerMsgQueryHit : Str := "peer_query_hit".toList

def peerMsgInvQuery : Str := "peer_inv_query".toList

def peerMsgInvQueryHit : Str := "peer_inv_query_hit".toList

def peerMsgConTestQuery : Str := "peer_con_test_query".toList

def peerMsgTestObtain2 : Str := "peer_test_obtain_2".toList

/-- `TTL`. -/
def ttl : Int := 5

/-- `MSG_BUF_SIZE`. -/
def msgBufSize : Nat := 1024

def testQueryCount : Nat := 10000

def testObtainCount : Nat := 10000

def testObtainLargeCount : Nat := 10

/-- `QUERY_CACHE_TIME_OUT`, in seconds. -/
def queryCacheTimeOut : Int := 120

/-- `QUERY_HIT_RESULTS_TIME_OUT`, in seconds. -/
def queryHitResultsTimeOut : Int := 120

def peerFileServerPort : Int := 3000

/-- `GetFileServerPort`. -/
def getFileServerPort (peer : PeerID) : Int := wrapInt (peerFileServerPort + peer)

/-! ## Message ids -/

/-- `SMessageID`. -/
structure SMessageID where
  peerId : PeerID
  msgId : MessageCounter
  timestamp : Int
  deriving DecidableEq, Repr

/-- `SMessageID::operator==`: the timestamp does not count. -/
instance : BEq SMessageID where
  beq a b := decide (a.peerId = b.peerId) && decide (a.msgId = b.msgId)

theorem SMessageID.beq_iff {a b : SMessageID} :
    (a == b) = true ↔ a.peerId = b.peerId ∧ a.msgId = b.msgId := by
  show (decide _ && decide _) = true ↔ _
  simp

instance : EquivBEq SMessageID where
  rfl := by simp [SMessageID.beq_iff]
  symm h := by
    rw [SMessageID.beq_iff] at h ⊢
    exact ⟨h.1.symm, h.2.symm⟩
  trans h₁ h₂ := by
    rw [SMessageID.beq_iff] at h₁ h₂ ⊢
    exact ⟨h₁.1.trans h₂.1, h₁.2.trans h₂.2⟩

/-! ## Splitting and joining -/

/-- The loop of `SplitString` from a position on: `piece` is what was read since
`start`, `count` the delimiters passed so far. The tail is only kept when it is
not empty. -/
def splitStringFrom (delim : Str) (splitNum : Int) : Str → Str → Nat → List Str
  | [], piece, _ => if piece = [] then [] else [piece]
  | c :: rest, piece, count =>
      if c ∈ delim then
        piece ::
          (if splitNum > 0 ∧ (count : Int) + 1 ≥ splitNum then
            (if rest = [] then [] else [rest])
          else splitStringFrom delim splitNum rest [] (count + 1))
      else splitStringFrom delim splitNum rest (piece ++ [c]) count

/-- `SplitString`; the default `split_num` of -1 means no limit. -/
def splitString (inputString delim : Str) (splitNum : Int := -1) : List Str :=
  splitStringFrom delim splitNum inputString [] 0

/-- `JoinString`. -/
def joinString : List Str → Str → Str
  | [], _ => []
  | [s], _ => s
  | s :: rest, delim => s ++ delim ++ joinString rest delim

/-! ## Numbers -/

/-- `std::to_string` of a natural number. -/
def natToString (n : Nat) : Str := Nat.toDigits 10 n

/-- `std::to_string` of an integer. -/
def intToString (n : Int) : Str :=
  if n < 0 then '-' :: natToString n.natAbs else natToString n.natAbs

/-- `std::isspace` in the C locale. -/
def isSpace (c : Char) : Bool :=
  c = ' ' || c = '\t' || c = '\n' || c = '\x0b' || c = '\x0c' || c = '\r'

/-- The sign and the magnitude `strtol` and its siblings read, if there is a
digit at all. -/
def readNumber (s : Str) : Option (Bool × Nat) :=
  let s := s.dropWhile isSpace
  let negative := s.head? == some '-'
  let body := if s.head? = some '-' ∨ s.head? = some '+' then s.tail else s
  let digits := body.takeWhile Char.isDigit
  if digits = [] then none else some (negative, Nat.ofDigitChars 10 digits 0)

/-- The signed value of what `readNumber` read. -/
def signedValue (negative : Bool) (magnitude : Nat) : Int :=
  if negative then -(magnitude : Int) else magnitude

/-- `std::stoi`. -/
def stoi (s : Str) : Except Fault Int :=
  match readNumber s with
  | none => .error .invalidArgument
  | some (neg, n) =>
      if IsInt (signedValue neg n) then .ok (signedValue neg n) else .error .outOfRange

/-- `std::stoll`. -/
def stoll (s : Str) : Except Fault Int :=
  match readNumber s with
  | none => .error .invalidArgument
  | some (neg, n) =>
      if IsInt64 (signedValue neg n) then .ok (signedValue neg n) else .error .outOfRange

/-- `std::stoull`: a minus sign negates modulo `2 ^ 64`. -/
def stoull (s : Str) : Except Fault Nat :=
  match readNumber s with
  | none => .error .invalidArgument
  | some (neg, n) =>
      if n < counterLimit then
        .ok (if neg then (counterLimit - n) % counterLimit else n)
      else .error .outOfRange

/-- `vec[i]`: past the end it is undefined. -/
def field (vec : List Str) (i : Nat) : Except Fault Str :=
  match vec[i]? with
  | some s => .ok s
  | none => .error .missingField

end P2PFileSharing
