import P2PFileSharing.Proofs.Codec

/-!
# `SplitString` and `JoinString` undo each other

Joining and then splitting gives a list back unless its last element is empty, for then a
delimiter ends the text and nothing follows it. The other way round, with or without a limit,
the text comes back but for that same delimiter at its end, if it was split at.
-/

namespace P2PFileSharing

variable {d : Char} {k : Int}

/-- What joining gives back of a text in which so many delimiters were passed before: all but a
last delimiter that the limit allows to split at. -/
def rejoined (d : Char) (k : Int) (count : Nat) (s : Str) : Str :=
  if s.getLast? = some d ∧ (k ≤ 0 ∨ (count : Int) + s.count d ≤ k) then s.dropLast else s

/-- `SplitString` and `JoinString` with this delimiter. -/
structure SplitJoin (d : Char) : Prop where
  split_join : ∀ v : List Str, (∀ s ∈ v, d ∉ s) → (∀ s, v.getLast? = some s → s ≠ []) →
    splitString (joinString v [d]) [d] = v
  join_split : ∀ s k, joinString (splitString s [d] k) [d] =
    if s.getLast? = some d ∧ (k ≤ 0 ∨ (s.count d : Int) ≤ k) then s.dropLast else s
  limit : ∀ s k, 0 < k → ((splitString s [d] k).length : Int) ≤ k + 1 ∧
    ∀ part ∈ (splitString s [d] k).take k.toNat, d ∉ part

/-! ## Splitting and joining -/

theorem joinString_cons_cons (s s' : Str) (rest : List Str) (delim : Str) :
    joinString (s :: s' :: rest) delim = s ++ delim ++ joinString (s' :: rest) delim := rfl

/-- The first delimiter of a text, with something behind it. -/
theorem rejoined_delim {count : Nat} {c : Char} {rest : Str} :
    rejoined d k count (d :: c :: rest) = d :: rejoined d k (count + 1) (c :: rest) := by
  have hcount : ((count : Int) + ((d :: c :: rest).count d : Nat) ≤ k) ↔
      (((count + 1 : Nat) : Int) + ((c :: rest).count d : Nat) ≤ k) := by
    rw [List.count_cons_self]
    omega
  simp only [rejoined, List.getLast?_cons_cons, hcount, List.dropLast_cons_cons]
  split <;> rfl

/-- Any other character. -/
theorem rejoined_char {count : Nat} {c : Char} (hc : c ≠ d) (rest : Str) :
    rejoined d k count (c :: rest) = c :: rejoined d k count rest := by
  cases rest with
  | nil => simp [rejoined, hc]
  | cons c' rest =>
      have hcount : (c :: c' :: rest).count d = (c' :: rest).count d := List.count_cons_of_ne hc
      simp only [rejoined, List.getLast?_cons_cons, hcount, List.dropLast_cons_cons]
      split <;> rfl

/-- The rest of a text behind the last delimiter that the limit allows to split at. -/
theorem rejoined_limit {count : Nat} {rest : Str} (hk : 0 < k) (hcount : k ≤ count) :
    rejoined d k count rest = rest := by
  refine if_neg ?_
  intro h
  obtain ⟨hlast, h⟩ := h
  have hpos : 0 < rest.count d := List.count_pos_iff.mpr (List.mem_of_getLast? hlast)
  omega

theorem splitStringFrom_ne_nil {s : Str} (hs : s ≠ []) (piece : Str) (count : Nat) :
    splitStringFrom [d] k s piece count ≠ [] := by
  induction s generalizing piece count with
  | nil => exact absurd rfl hs
  | cons c rest ih =>
      rw [splitStringFrom]
      split
      · exact List.cons_ne_nil _ _
      · cases rest with
        | nil =>
            rw [splitStringFrom,
              if_neg (List.append_ne_nil_of_right_ne_nil _ (List.cons_ne_nil _ _))]
            exact List.cons_ne_nil _ _
        | cons c' rest => exact ih (List.cons_ne_nil _ _) _ _

/-- The loop from a position on, joined again. -/
theorem joinString_splitStringFrom (s : Str) :
    ∀ (piece : Str) (count : Nat), (k ≤ 0 ∨ (count : Int) < k) →
      joinString (splitStringFrom [d] k s piece count) [d] = piece ++ rejoined d k count s := by
  induction s with
  | nil =>
      intro piece count _
      have hrejoined : rejoined d k count [] = [] := if_neg (fun h => nomatch h.1)
      rw [splitStringFrom, hrejoined, List.append_nil]
      split
      · next hpiece => rw [hpiece, joinString]
      · rw [joinString]
  | cons c rest ih =>
      intro piece count hk
      rw [splitStringFrom]
      split
      · next hc =>
          obtain rfl := List.mem_singleton.mp hc
          cases rest with
          | nil =>
              -- the delimiter that is lost
              have hrejoined : rejoined c k count [c] = [] := by
                refine if_pos ⟨rfl, ?_⟩
                rw [List.count_singleton_self]
                omega
              rw [hrejoined, List.append_nil, splitStringFrom, if_pos rfl, ite_self,
                joinString]
          | cons c' rest =>
              rw [rejoined_delim]
              by_cases hlimit : k > 0 ∧ (count : Int) + 1 ≥ k
              · rw [if_pos hlimit, if_neg (List.cons_ne_nil _ _), joinString_cons_cons, joinString,
                  rejoined_limit hlimit.1 (by omega), List.append_assoc, List.singleton_append]
              · rw [if_neg hlimit]
                have hnext := ih [] (count + 1) (by omega)
                cases htail : splitStringFrom [c] k (c' :: rest) [] (count + 1) with
                | nil => exact absurd htail (splitStringFrom_ne_nil (List.cons_ne_nil _ _) _ _)
                | cons part parts =>
                    rw [htail, List.nil_append] at hnext
                    rw [joinString_cons_cons, hnext, List.append_assoc, List.singleton_append]
      · next hc =>
          have hne : c ≠ d := fun h => hc (List.mem_singleton.mpr h)
          rw [ih (piece ++ [c]) count hk, rejoined_char hne, List.append_assoc,
            List.singleton_append]

/-! ## The limit -/

/-- With a limit there are at most as many parts as it has left and one more, and of these only
the last may contain the delimiter. -/
theorem splitStringFrom_limit (s : Str) :
    ∀ (piece : Str) (count : Nat), d ∉ piece → (count : Int) < k →
      ((splitStringFrom [d] k s piece count).length : Int) ≤ k - count + 1 ∧
        ∀ part ∈ (splitStringFrom [d] k s piece count).take (k - count).toNat, d ∉ part := by
  induction s with
  | nil =>
      intro piece count hpiece hcount
      rw [splitStringFrom]
      split
      · refine ⟨by rw [List.length_nil]; omega, ?_⟩
        rw [List.take_nil]
        exact List.forall_mem_nil _
      · refine ⟨by rw [List.length_singleton]; omega, ?_⟩
        intro part hpart
        rw [List.mem_singleton.mp (List.mem_of_mem_take hpart)]
        exact hpiece
  | cons c rest ih =>
      intro piece count hpiece hcount
      obtain ⟨left, hleft⟩ : ∃ left, (k - count).toNat = left + 1 :=
        Nat.exists_eq_succ_of_ne_zero (by omega)
      rw [splitStringFrom]
      split
      · rw [List.length_cons, hleft, List.take_succ_cons, List.forall_mem_cons]
        split
        · next hlimit =>
            have hzero : left = 0 := by omega
            rw [hzero, List.take_zero]
            refine ⟨?_, hpiece, List.forall_mem_nil _⟩
            split
            · rw [List.length_nil]
              omega
            · rw [List.length_singleton]
              omega
        · obtain ⟨hlength, hparts⟩ := ih [] (count + 1) List.not_mem_nil (by omega)
          have hsame : (k - ((count + 1 : Nat) : Int)).toNat = left := by omega
          rw [hsame] at hparts
          refine ⟨by omega, hpiece, hparts⟩
      · next hc =>
          refine ih (piece ++ [c]) count ?_ hcount
          rw [List.mem_append, not_or]
          exact ⟨hpiece, fun h => hc (by rw [List.mem_singleton.mp h]; exact List.mem_cons_self)⟩

/-- The laws, for every delimiter. -/
theorem split_join_laws (d : Char) : SplitJoin d where
  split_join v hd hlast := splitStringFrom_join (by decide) v 0 hd hlast
  join_split s k := by
    have h : joinString (splitStringFrom [d] k s [] 0) [d] = [] ++ rejoined d k 0 s :=
      joinString_splitStringFrom s [] 0 (by omega)
    rw [List.nil_append, rejoined] at h
    simp only [Nat.cast_zero, zero_add] at h
    exact h
  limit s k hk := by
    have h := splitStringFrom_limit (d := d) s [] 0 List.not_mem_nil hk
    rw [Nat.cast_zero, sub_zero] at h
    exact h

end P2PFileSharing
