import P2PFileSharing.Lib.Framing
import P2PFileSharing.Spec.Message

/-!
# Texts and values: splitting undoes joining, parsing undoes printing

`SplitString` drops an empty last piece and nothing else, so it inverts
`JoinString` on pieces without the delimiter whose last one is not empty. A
printed number is a nonempty run of digits behind at most one minus sign, which
is what `std::stoi` and its siblings read back, provided it fits. Together they
give the field lemmas: what each handler reads at its index from the text of a
valid message is the value it was printed from.
-/

namespace P2PFileSharing

/-! ## Splitting a joined list -/

theorem splitStringFrom_append {d : Char} {k : Int} {s : Str} (hs : d ∉ s) :
    ∀ (rest piece : Str) (n : Nat),
    splitStringFrom [d] k (s ++ rest) piece n = splitStringFrom [d] k rest (piece ++ s) n := by
  induction s with
  | nil =>
      intro rest piece n
      rw [List.nil_append, List.append_nil]
  | cons c s ih =>
      intro rest piece n
      have hc : c ∉ [d] := by
        intro h
        rw [List.mem_singleton] at h
        exact hs (by rw [h]; exact List.mem_cons_self)
      have hs' : d ∉ s := fun h => hs (List.mem_cons_of_mem _ h)
      rw [List.cons_append, splitStringFrom, if_neg hc, ih hs', List.append_assoc]
      rfl

theorem splitStringFrom_delim {d : Char} {k : Int} (hk : k ≤ 0) (rest piece : Str) (n : Nat) :
    splitStringFrom [d] k (d :: rest) piece n =
      piece :: splitStringFrom [d] k rest [] (n + 1) := by
  rw [splitStringFrom, if_pos List.mem_cons_self, if_neg (by omega)]

theorem splitStringFrom_join {d : Char} {k : Int} (hk : k ≤ 0) :
    ∀ (v : List Str) (n : Nat), (∀ s ∈ v, d ∉ s) → (∀ s, v.getLast? = some s → s ≠ []) →
    splitStringFrom [d] k (joinString v [d]) [] n = v := by
  intro v
  induction v with
  | nil =>
      intro n _ _
      rfl
  | cons s rest ih =>
      intro n hd hlast
      cases rest with
      | nil =>
          have hs : s ≠ [] := hlast s rfl
          have h := splitStringFrom_append (k := k) (hd s List.mem_cons_self) [] [] n
          rw [List.append_nil] at h
          rw [joinString, h, splitStringFrom, List.nil_append, if_neg hs]
      | cons s' rest' =>
          have hd' : ∀ x ∈ s' :: rest', d ∉ x := fun x hx => hd x (List.mem_cons_of_mem _ hx)
          have hlast' : ∀ x, (s' :: rest').getLast? = some x → x ≠ [] := by
            intro x hx
            refine hlast x ?_
            rw [List.getLast?_cons_cons]
            exact hx
          rw [joinString, List.append_assoc, splitStringFrom_append (hd s List.mem_cons_self),
            List.singleton_append, splitStringFrom_delim hk, ih (n + 1) hd' hlast',
            List.nil_append]
          simp

/-- `SplitString` inverts `JoinString` on fields without the delimiter whose
last one is not empty. -/
theorem splitFields_joinFields {v : List Str} (hd : ∀ s ∈ v, '\n' ∉ s)
    (hlast : ∀ s, v.getLast? = some s → s ≠ []) : splitFields (joinFields v) = v :=
  splitStringFrom_join (by decide) v 0 hd hlast

theorem splitStringFrom_join_blank {d : Char} {k : Int} (hk : k ≤ 0) :
    ∀ (v : List Str) (n : Nat), (∀ s ∈ v, d ∉ s) →
    splitStringFrom [d] k (joinString (v ++ [[]]) [d]) [] n = v := by
  intro v
  induction v with
  | nil =>
      intro n _
      rfl
  | cons s rest ih =>
      intro n hd
      have hjoin : joinString (s :: rest ++ [[]]) [d] =
          s ++ ([d] ++ joinString (rest ++ [[]]) [d]) := by
        rw [List.cons_append, joinString, List.append_assoc]
        rw [List.append_eq_nil_iff]
        exact fun h => List.cons_ne_nil _ _ h.2
      rw [hjoin, splitStringFrom_append (hd s List.mem_cons_self), List.singleton_append,
        splitStringFrom_delim hk, List.nil_append,
        ih (n + 1) fun x hx => hd x (List.mem_cons_of_mem _ hx)]

/-- `SplitString` loses an empty field at the end. -/
theorem splitFields_joinFields_blank {v : List Str} (hd : ∀ s ∈ v, '\n' ∉ s) :
    splitFields (joinFields (v ++ [[]])) = v :=
  splitStringFrom_join_blank (by decide) v 0 hd

theorem splitStringFrom_lines {d : Char} {k : Int} (hk : k ≤ 0) :
    ∀ (lines : List Str) (n : Nat), (∀ s ∈ lines, d ∉ s) →
    splitStringFrom [d] k (lines.flatMap fun s => s ++ [d]) [] n = lines := by
  intro lines
  induction lines with
  | nil =>
      intro n _
      rfl
  | cons s rest ih =>
      intro n hd
      rw [List.flatMap_cons, List.append_assoc, splitStringFrom_append (hd s List.mem_cons_self),
        List.singleton_append, splitStringFrom_delim hk, List.nil_append,
        ih (n + 1) fun x hx => hd x (List.mem_cons_of_mem _ hx)]

theorem notMem_splitStringFrom {d : Char} {k : Int} (hk : k ≤ 0) (s : Str) :
    ∀ (piece : Str) (n : Nat), d ∉ piece → ∀ x ∈ splitStringFrom [d] k s piece n, d ∉ x := by
  induction s with
  | nil =>
      intro piece n hp x hx
      rw [splitStringFrom] at hx
      split at hx
      · cases hx
      · rw [List.mem_singleton.mp hx]
        exact hp
  | cons c s ih =>
      intro piece n hp x hx
      rw [splitStringFrom] at hx
      split at hx
      · rw [if_neg (by omega)] at hx
        rcases List.mem_cons.mp hx with rfl | hx
        · exact hp
        · exact ih [] (n + 1) List.not_mem_nil x hx
      · next hc =>
          refine ih (piece ++ [c]) n ?_ x hx
          rw [List.mem_append, List.mem_singleton]
          rintro (h | rfl)
          · exact hp h
          · exact hc List.mem_cons_self

theorem newline_notMem_splitFields {message s : Str} (h : s ∈ splitFields message) : '\n' ∉ s :=
  notMem_splitStringFrom (by decide) message [] 0 List.not_mem_nil s h

/-! ## Reading a printed number -/

theorem isSpace_of_isDigit {c : Char} (h : c.isDigit = true) : isSpace c = false := by
  simp only [isSpace, Bool.or_eq_false_iff, decide_eq_false_iff_not]
  refine ⟨⟨⟨⟨⟨?_, ?_⟩, ?_⟩, ?_⟩, ?_⟩, ?_⟩ <;>
    (rintro rfl; exact absurd h (by decide))

theorem natToString_isDigit {n : Nat} {c : Char} (h : c ∈ natToString n) : c.isDigit = true :=
  Nat.isDigit_of_mem_toDigits (by omega) (by omega) h

theorem natToString_ne_nil (n : Nat) : natToString n ≠ [] := Nat.toDigits_ne_nil

theorem notMem_natToString {c : Char} (hc : c.isDigit = false) (n : Nat) : c ∉ natToString n := by
  intro h
  rw [natToString_isDigit h] at hc
  cases hc

theorem notMem_intToString {c : Char} (hc : c.isDigit = false) (hsign : c ≠ '-') (n : Int) :
    c ∉ intToString n := by
  unfold intToString
  split
  · intro h
    rcases List.mem_cons.mp h with h | h
    · exact hsign h
    · exact notMem_natToString hc _ h
  · exact notMem_natToString hc _

theorem newline_notMem_natToString (n : Nat) : '\n' ∉ natToString n :=
  notMem_natToString (by decide) n

theorem newline_notMem_intToString (n : Int) : '\n' ∉ intToString n :=
  notMem_intToString (by decide) (by decide) n

theorem intToString_ne_nil (n : Int) : intToString n ≠ [] := by
  unfold intToString
  split
  · exact List.cons_ne_nil _ _
  · exact natToString_ne_nil _

theorem takeWhile_natToString (n : Nat) :
    (natToString n).takeWhile Char.isDigit = natToString n :=
  List.takeWhile_eq_self_iff.mpr fun _ hc => natToString_isDigit hc

theorem readNumber_natToString (n : Nat) : readNumber (natToString n) = some (false, n) := by
  obtain ⟨c, s, hcs⟩ := List.exists_cons_of_ne_nil (natToString_ne_nil n)
  have hc : c.isDigit = true := natToString_isDigit (by rw [hcs]; exact List.mem_cons_self)
  have hdrop : (natToString n).dropWhile isSpace = natToString n := by
    rw [hcs, List.dropWhile_cons, isSpace_of_isDigit hc]
    rfl
  have hminus : ((natToString n).head? == some '-') = false := by
    rw [hcs, List.head?_cons, beq_eq_false_iff_ne]
    rintro ⟨⟩
    exact absurd hc (by decide)
  have hsign : ¬((natToString n).head? = some '-' ∨ (natToString n).head? = some '+') := by
    rw [hcs, List.head?_cons]
    rintro (⟨⟨⟩⟩ | ⟨⟨⟩⟩) <;> exact absurd hc (by decide)
  simp only [readNumber, hdrop, hminus, if_neg hsign, takeWhile_natToString,
    if_neg (natToString_ne_nil n)]
  rw [natToString, Nat.ofDigitChars_ten_toDigits]

theorem readNumber_neg (n : Nat) : readNumber ('-' :: natToString n) = some (true, n) := by
  have hdrop : ('-' :: natToString n).dropWhile isSpace = '-' :: natToString n := rfl
  simp only [readNumber, hdrop, List.head?_cons, true_or, if_true, List.tail_cons,
    takeWhile_natToString, if_neg (natToString_ne_nil n), beq_self_eq_true]
  rw [natToString, Nat.ofDigitChars_ten_toDigits]

theorem readNumber_intToString (n : Int) :
    ∃ neg m, readNumber (intToString n) = some (neg, m) ∧ signedValue neg m = n := by
  unfold intToString
  split
  · next h =>
      refine ⟨true, n.natAbs, readNumber_neg _, ?_⟩
      show -(n.natAbs : Int) = n
      omega
  · next h =>
      refine ⟨false, n.natAbs, readNumber_natToString _, ?_⟩
      show (n.natAbs : Int) = n
      omega

theorem stoi_intToString {n : Int} (h : IsInt n) : stoi (intToString n) = .ok n := by
  obtain ⟨neg, m, hread, hval⟩ := readNumber_intToString n
  rw [stoi, hread]
  simp only [hval, if_pos h]

/-- What `std::stoi` reads of a number it did not refuse is the number. -/
theorem eq_of_stoi_intToString {m n : Int} (h : stoi (intToString n) = .ok m) : m = n := by
  obtain ⟨neg, k, hread, hval⟩ := readNumber_intToString n
  simp only [stoi, hread, hval] at h
  split at h
  · injection h with h
    exact h.symm
  · cases h

theorem isInt_of_stoi {s : Str} {n : Int} (h : stoi s = .ok n) : IsInt n := by
  unfold stoi at h
  split at h
  · cases h
  · split at h
    · next hint =>
        injection h with h
        rw [← h]
        exact hint
    · cases h

theorem stoll_intToString {n : Int} (h : IsInt64 n) : stoll (intToString n) = .ok n := by
  obtain ⟨neg, m, hread, hval⟩ := readNumber_intToString n
  rw [stoll, hread]
  simp only [hval, if_pos h]

theorem stoull_natToString {n : Nat} (h : n < counterLimit) :
    stoull (natToString n) = .ok n := by
  rw [stoull, readNumber_natToString]
  simp only [if_pos h, Bool.false_eq_true, if_false]

theorem natToString_injective {m n : Nat} (h : natToString m = natToString n) : m = n := by
  have hm := readNumber_natToString m
  rw [h, readNumber_natToString] at hm
  simpa using hm.symm

/-! ## How long a text gets -/

theorem length_natToString {n k : Nat} (hk : 0 < k) (h : n < 10 ^ k) :
    (natToString n).length ≤ k :=
  (Nat.length_toDigits_le_iff (by decide) hk).mpr h

theorem length_intToString {n : Int} {k : Nat} (hk : 0 < k) (h : n.natAbs < 10 ^ k) :
    (intToString n).length ≤ k + 1 := by
  have hlen := length_natToString hk h
  unfold intToString
  split
  · rw [List.length_cons]
    omega
  · omega

theorem length_intToString_int {n : Int} (h : IsInt n) : (intToString n).length ≤ 11 := by
  obtain ⟨h₁, h₂⟩ := h
  exact length_intToString (by decide) (by omega)

theorem length_intToString_int64 {n : Int} (h : IsInt64 n) : (intToString n).length ≤ 20 := by
  obtain ⟨h₁, h₂⟩ := h
  exact length_intToString (by decide) (by omega)

theorem length_natToString_counter {n : Nat} (h : n < counterLimit) :
    (natToString n).length ≤ 20 := by
  unfold counterLimit at h
  exact length_natToString (by decide) (by omega)

/-- Joining adds at most one delimiter a field. -/
theorem length_joinFields_le (v : List Str) :
    (joinFields v).length ≤ (v.map fun s => s.length + 1).sum := by
  induction v with
  | nil => exact Nat.le_refl _
  | cons s rest ih =>
      rw [List.map_cons, List.sum_cons]
      cases rest with
      | nil =>
          show s.length ≤ _
          omega
      | cons s' rest =>
          show (s ++ [peerMsgTypeDelim] ++ joinFields (s' :: rest)).length ≤ _
          rw [List.length_append, List.length_append, List.length_singleton]
          omega

/-! ## Reading a field -/

theorem bind_eq_ok {ε α β : Type} {x : Except ε α} {f : α → Except ε β} {b : β} :
    (x >>= f) = .ok b ↔ ∃ a, x = .ok a ∧ f a = .ok b := by
  cases x with
  | error e =>
      constructor
      · intro h
        cases h
      · intro h
        obtain ⟨a, ha, -⟩ := h
        cases ha
  | ok a =>
      constructor
      · intro h
        exact ⟨a, rfl, h⟩
      · intro h
        obtain ⟨a', ha, h⟩ := h
        injection ha with ha
        rw [ha]
        exact h

theorem field_of_getElem? {vec : List Str} {i : Nat} {s : Str} (h : vec[i]? = some s) :
    field vec i = .ok s := by
  rw [field, h]

theorem getElem?_of_field {vec : List Str} {i : Nat} {s : Str} (h : field vec i = .ok s) :
    vec[i]? = some s := by
  unfold field at h
  split at h
  · next hs =>
      injection h with h
      rw [hs, h]
  · cases h

/-! ## The fields of a valid message -/

theorem newline_notMem_headFields {type : Str} (ht : '\n' ∉ type) (id : SMessageID)
    (timeToLive : Int) (sender : PeerID) :
    ∀ s ∈ headFields type id timeToLive sender, '\n' ∉ s := by
  simp only [headFields, List.mem_cons, List.not_mem_nil, or_false]
  rintro s (rfl | rfl | rfl | rfl | rfl | rfl)
  · exact ht
  · exact newline_notMem_intToString _
  · exact newline_notMem_natToString _
  · exact newline_notMem_intToString _
  · exact newline_notMem_intToString _
  · exact newline_notMem_intToString _

theorem newline_notMem_requestType (r : Request) : '\n' ∉ r.type := by
  cases r with
  | query => exact (by decide : '\n' ∉ peerMsgQuery)
  | invQuery => exact (by decide : '\n' ∉ peerMsgInvQuery)
  | conTestQuery => exact (by decide : '\n' ∉ peerMsgConTestQuery)
  | conTestObtain => exact (by decide : '\n' ∉ peerMsgTestObtain2)

theorem newline_notMem_hitType (k : HitKind) : '\n' ∉ k.type := by
  cases k with
  | query => exact (by decide : '\n' ∉ peerMsgQueryHit)
  | invQuery => exact (by decide : '\n' ∉ peerMsgInvQueryHit)

theorem splitFields_query {x : Query} (h : x.Valid) : splitFields x.text = x.fields := by
  have hr := h.2.2.2
  refine splitFields_joinFields ?_ ?_
  · intro s hs
    rcases List.mem_append.mp hs with hs | hs
    · exact newline_notMem_headFields (newline_notMem_requestType _) _ _ _ s hs
    · cases hreq : x.request <;> simp only [hreq, Request.args, Request.Valid, List.mem_cons,
        List.not_mem_nil, or_false] at hs hr
      · rw [hs]; exact hr.2
      · rcases hs with rfl | rfl
        · exact hr.1.2
        · exact newline_notMem_intToString _
      · rw [hs]; exact newline_notMem_intToString _
      · rcases hs with rfl | rfl
        · exact newline_notMem_intToString _
        · exact newline_notMem_natToString _
  · intro s hs
    cases hreq : x.request <;> simp only [Query.fields, hreq, Request.args, Request.Valid,
      List.getLast?_append, List.getLast?_cons, List.getLast?_nil,
      Option.getD_none, Option.getD_some, Option.some_or, Option.some.injEq] at hs hr
    · rw [← hs]; exact hr.1
    · rw [← hs]; exact intToString_ne_nil _
    · rw [← hs]; exact intToString_ne_nil _
    · rw [← hs]; exact natToString_ne_nil _

theorem splitFields_hit {h : Hit} (hv : h.Valid) : splitFields h.text = h.fields := by
  obtain ⟨-, -, -, hip, hk⟩ := hv
  refine splitFields_joinFields ?_ ?_
  · intro s hs
    rcases List.mem_append.mp hs with hs | hs
    · exact newline_notMem_headFields (newline_notMem_hitType _) _ _ _ s hs
    · rcases List.mem_cons.mp hs with rfl | hs
      · exact hip.2
      · cases hkind : h.kind <;> simp only [hkind, HitKind.args, HitKind.Valid, List.mem_cons,
          List.not_mem_nil, or_false] at hs hk
        rw [hs]; exact hk.2
  · intro s hs
    cases hkind : h.kind <;> simp only [Hit.fields, hkind, HitKind.args, HitKind.Valid,
      List.getLast?_append, List.getLast?_cons, List.getLast?_nil,
      Option.getD_none, Option.getD_some, Option.some_or, Option.some.injEq] at hs hk
    · rw [← hs]; exact hk.1
    · rw [← hs]; exact hip.1

theorem parseMessageId_fields {id : SMessageID} (h : id.Valid) (type : Str) (timeToLive : Int)
    (sender : PeerID) (args : List Str) :
    parseMessageId (headFields type id timeToLive sender ++ args) = .ok id := by
  obtain ⟨hp, hm, ht⟩ := h
  have h1 : field (headFields type id timeToLive sender ++ args) 1 =
      .ok (intToString id.peerId) := rfl
  have h2 : field (headFields type id timeToLive sender ++ args) 2 =
      .ok (natToString id.msgId) := rfl
  have h3 : field (headFields type id timeToLive sender ++ args) 3 =
      .ok (intToString id.timestamp) := rfl
  simp only [parseMessageId, h1, h2, h3, bind, Except.bind, stoi_intToString hp,
    stoull_natToString hm, stoll_intToString ht]
  rfl

theorem takeWhile_joinFields {type : Str} (ht : '\n' ∉ type) (f : Str) (rest : List Str) :
    (joinFields (type :: f :: rest)).takeWhile (fun c => c ≠ peerMsgTypeDelim) = type := by
  rw [joinFields, joinString, List.append_assoc]
  · exact takeWhile_append_sep ht _
  · exact fun h => List.cons_ne_nil _ _ h

end P2PFileSharing
