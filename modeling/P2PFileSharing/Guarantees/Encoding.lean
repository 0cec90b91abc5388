import P2PFileSharing.Model.Scenario
import P2PFileSharing.Proofs.Codec

/-!
# What a receiver reads from a query

`CreateQueryMessage` puts the filename last, and `SplitString` drops a last
field that is empty; both creators put it between newlines, and `SplitString`
knows no other newline than a delimiter. So an empty filename is lost from a
query, but not from an inv_query, whose factor comes after it, and a filename
with a newline comes apart in both. Every other filename arrives as it was.
-/

namespace P2PFileSharing

/-- A filename that `Run`'s loop can cut out of its buffer of 100 characters. -/
def CommandName (filename : Str) : Prop :=
  filename.length ≤ 98 ∧ '\n' ∉ filename ∧ '\x00' ∉ filename

/-- A name that `LoadFileInfo` can find in a directory. -/
def EntryName (filename : Str) : Prop :=
  filename ≠ [] ∧ filename.length ≤ 255 ∧ '/' ∉ filename ∧ '\x00' ∉ filename

/-- The handlers of queries and inv_queries find every field they index below 7,
the numbers convert, and the values are those that went in. -/
def FieldsDecode (vec : List Str) (me : PeerID) (id : SMessageID) (filename : Str) : Prop :=
  parseMessageId vec = .ok id ∧ field vec 4 >>= stoi = .ok ttl ∧
    field vec 5 >>= stoi = .ok me ∧ field vec 6 = .ok filename

/-- What `HandleQuery` reads from a message of `CreateQueryMessage` is what was put in. -/
def QueryDecodes (me : PeerID) (id : SMessageID) (filename : Str) : Prop :=
  FieldsDecode (splitFields (createQueryMessage me id filename)) me id filename

/-- What `HandleInvQuery` reads from a message of `CreateInvQueryMessage` is what was
put in. -/
def InvQueryDecodes (net : Setup) (me : PeerID) (id : SMessageID) (filename : Str) : Prop :=
  let vec := splitFields (createInvQueryMessage net me id filename)
  FieldsDecode vec me id filename ∧
    field vec 7 >>= stoi = .ok (net.replicationFactor me - 1)

section Fields

variable {me : PeerID} {id : SMessageID} {filename : Str} {type : Str} {args : List Str}

theorem newline_notMem_commonFields (ht : '\n' ∉ type) :
    ∀ s ∈ commonFields type id me, '\n' ∉ s :=
  newline_notMem_headFields ht id ttl me

theorem fieldsDecode_common (hme : IsInt me) (hid : id.Valid) :
    FieldsDecode (commonFields type id me ++ filename :: args) me id filename := by
  refine ⟨parseMessageId_fields hid type ttl me _, ?_, ?_, rfl⟩
  · show stoi (intToString ttl) = .ok ttl
    exact stoi_intToString (by decide)
  · exact stoi_intToString hme

/-- A field that was split off holds no newline. -/
theorem FieldsDecode.newline_notMem {message : Str}
    (h : FieldsDecode (splitFields message) me id filename) : '\n' ∉ filename := by
  have h6 := h.2.2.2
  unfold field at h6
  split at h6
  · next s hs =>
      injection h6 with h6
      rw [← h6]
      exact newline_notMem_splitFields (List.mem_of_getElem? hs)
  · cases h6

theorem splitFields_createQuery_nil :
    splitFields (createQueryMessage me id []) = commonFields peerMsgQuery id me :=
  splitFields_joinFields_blank (newline_notMem_commonFields (by decide))

theorem splitFields_createQuery (hne : filename ≠ []) (hf : '\n' ∉ filename) :
    splitFields (createQueryMessage me id filename) =
      commonFields peerMsgQuery id me ++ [filename] := by
  refine splitFields_joinFields ?_ ?_
  · intro s hs
    rcases List.mem_append.mp hs with hs | hs
    · exact newline_notMem_commonFields (by decide) s hs
    · rw [List.mem_singleton.mp hs]
      exact hf
  · intro s hs
    rw [List.getLast?_concat, Option.some.injEq] at hs
    rw [← hs]
    exact hne

theorem splitFields_createInvQuery (net : Setup) (hf : '\n' ∉ filename) :
    splitFields (createInvQueryMessage net me id filename) =
      commonFields peerMsgInvQuery id me ++
        [filename, intToString (wrapInt (net.replicationFactor me - 1))] := by
  refine splitFields_joinFields ?_ ?_
  · intro s hs
    rcases List.mem_append.mp hs with hs | hs
    · exact newline_notMem_commonFields (by decide) s hs
    · simp only [List.mem_cons, List.not_mem_nil, or_false] at hs
      rcases hs with rfl | rfl
      · exact hf
      · exact newline_notMem_intToString _
  · intro s hs
    rw [List.getLast?_append, List.getLast?_cons_cons, List.getLast?_singleton,
      Option.some_or, Option.some.injEq] at hs
    rw [← hs]
    exact intToString_ne_nil _

end Fields

/-- Exactly the filenames without a newline reach the handlers as they were, and in a
query only those that are not empty. -/
theorem decodes_iff {net : Setup} {me : PeerID} {id : SMessageID} (hme : IsInt me)
    (hid : id.Valid) (hfactor : 2 ≤ net.replicationFactor me) (filename : Str) :
    (QueryDecodes me id filename ↔ filename ≠ [] ∧ '\n' ∉ filename) ∧
      (InvQueryDecodes net me id filename ↔ '\n' ∉ filename) := by
  refine ⟨⟨fun h => ⟨?_, h.newline_notMem⟩, fun ⟨hne, hf⟩ => ?_⟩,
    fun h => h.1.newline_notMem, fun hf => ?_⟩
  · intro h
    obtain rfl := h
    have h6 := h.2.2.2
    rw [splitFields_createQuery_nil] at h6
    cases h6
  · rw [QueryDecodes, splitFields_createQuery hne hf]
    exact fieldsDecode_common hme hid
  · simp only [InvQueryDecodes, splitFields_createInvQuery net hf]
    refine ⟨fieldsDecode_common hme hid, ?_⟩
    have hint : IsInt (net.replicationFactor me - 1) := by
      have h := net.factor_range me
      exact ⟨by omega, by have := h.2; omega⟩
    rw [net.wrapInt_factor hfactor]
    exact stoi_intToString hint

theorem decodes_iff_twoCopies :
    QueryDecodes 0 ⟨0, 0, 0⟩ theFile.1 ∧ InvQueryDecodes twoCopies 0 ⟨0, 0, 0⟩ theFile.1 := by
  have hme : IsInt (0 : PeerID) := by decide
  have hid : SMessageID.Valid ⟨0, 0, 0⟩ := ⟨by decide, by decide, by decide⟩
  have hfactor : 2 ≤ twoCopies.replicationFactor 0 := by decide
  obtain ⟨hquery, hinvQuery⟩ := decodes_iff hme hid hfactor theFile.1
  exact ⟨hquery.mpr ⟨by decide, by decide⟩, hinvQuery.mpr (by decide)⟩

/-- The name left by the command `query` with a trailing blank is gone from its message,
and a directory entry with a newline in its name comes apart in both. -/
theorem name_lost :
    (CommandName [] ∧ ¬QueryDecodes 0 ⟨0, 0, 0⟩ []) ∧
      EntryName ['a', '\n', 'b'] ∧ ¬QueryDecodes 0 ⟨0, 0, 0⟩ ['a', '\n', 'b'] ∧
        ¬InvQueryDecodes twoCopies 0 ⟨0, 0, 0⟩ ['a', '\n', 'b'] := by
  refine ⟨⟨⟨by decide, by decide, by decide⟩, fun h => ?_⟩,
    ⟨by decide, by decide, by decide, by decide⟩, fun h => ?_, fun h => ?_⟩
  · have h6 := h.2.2.2
    rw [splitFields_createQuery_nil] at h6
    cases h6
  · exact absurd h.newline_notMem (by decide)
  · exact absurd h.1.newline_notMem (by decide)

end P2PFileSharing
