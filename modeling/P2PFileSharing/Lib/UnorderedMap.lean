import Mathlib

/-!
# A hash map up to its own notion of key equality

`std::unordered_map` compares keys with `operator==`, which need not be
equality: two keys that compare equal may still differ, and the map then keeps
the key it was first given. The model is a list of entries together with the
proof that no two of them have keys that compare equal, so a map with a doubled
key cannot be built.

Iteration order is the order of the list, and nothing below depends on it: a
theorem about every map holds for every order.
-/

namespace P2PFileSharing

/-- The entries of a map, no two with keys that compare equal. -/
structure UnorderedMap (κ ν : Type) [BEq κ] where
  entries : List (κ × ν)
  distinct : entries.Pairwise fun a b => (a.1 == b.1) = false

namespace UnorderedMap

variable {κ ν : Type} [BEq κ]

/-- The map with no entry. -/
def empty : UnorderedMap κ ν := ⟨[], List.Pairwise.nil⟩

/-- `find(k)`: the value stored under a key that compares equal to `k`. -/
def find? (m : UnorderedMap κ ν) (k : κ) : Option ν :=
  (m.entries.find? fun e => e.1 == k).map Prod.snd

/-- `size()`. -/
def size (m : UnorderedMap κ ν) : Nat := m.entries.length

/-- The entries that pass a test on their stored key. -/
def filterKeys (m : UnorderedMap κ ν) (keep : κ → Bool) : UnorderedMap κ ν :=
  ⟨m.entries.filter fun e => keep e.1, m.distinct.filter _⟩

/-- The stored keys, in iteration order. -/
def keys (m : UnorderedMap κ ν) : List κ := m.entries.map Prod.fst

/-- `erase(k)`. -/
def erase (m : UnorderedMap κ ν) (k : κ) : UnorderedMap κ ν :=
  m.filterKeys fun k' => !(k' == k)

theorem find?_eq_none {m : UnorderedMap κ ν} {k : κ} :
    m.find? k = none ↔ ∀ e ∈ m.entries, (e.1 == k) = false := by
  simp [find?, List.find?_eq_none]

/-- `m[k] = v`: overwrites the value of an entry whose key compares equal and
keeps its key, or else adds an entry. -/
def insert [PartialEquivBEq κ] (m : UnorderedMap κ ν) (k : κ) (v : ν) :
    UnorderedMap κ ν :=
  if h : m.find? k = none then
    ⟨m.entries ++ [(k, v)], by
      refine List.pairwise_append.mpr ⟨m.distinct, List.pairwise_singleton _ _, ?_⟩
      intro a ha b hb
      rw [List.mem_singleton.mp hb]
      exact find?_eq_none.mp h a ha⟩
  else
    ⟨m.entries.map fun e => if e.1 == k then (e.1, v) else e, by
      refine List.pairwise_map.mpr (m.distinct.imp ?_)
      intro a b hab
      split <;> split <;> exact hab⟩

/-- The rvalue `m[k]`: the stored value, or a fresh entry with the default. -/
def index [PartialEquivBEq κ] (m : UnorderedMap κ ν) (k : κ) (dflt : ν) :
    ν × UnorderedMap κ ν :=
  match m.find? k with
  | some v => (v, m)
  | none => (dflt, m.insert k dflt)

@[simp] theorem find?_empty (k : κ) : (empty : UnorderedMap κ ν).find? k = none := rfl

@[simp] theorem size_empty : (empty : UnorderedMap κ ν).size = 0 := rfl

/-- An entry is what its own key finds, because no other entry answers to it. -/
private theorem find?_of_mem [PartialEquivBEq κ] {l : List (κ × ν)} {e : κ × ν} {k : κ}
    (hd : l.Pairwise fun a b => (a.1 == b.1) = false) (hmem : e ∈ l)
    (hek : (e.1 == k) = true) : (l.find? fun e => e.1 == k) = some e := by
  induction l with
  | nil => cases hmem
  | cons a as ih =>
      rw [List.find?_cons]
      rcases List.mem_cons.mp hmem with rfl | hmem'
      · rw [hek]
      · have hae : (a.1 == e.1) = false := (List.pairwise_cons.mp hd).1 e hmem'
        have hak : (a.1 == k) = false := by
          rw [Bool.eq_false_iff]
          intro hak
          rw [PartialEquivBEq.trans hak (BEq.symm hek)] at hae
          cases hae
        rw [hak]
        exact ih (List.pairwise_cons.mp hd).2 hmem'

theorem find?_filterKeys_some [PartialEquivBEq κ] {m : UnorderedMap κ ν}
    {keep : κ → Bool} {k : κ} {v : ν} (h : (m.filterKeys keep).find? k = some v) :
    m.find? k = some v := by
  simp only [find?, filterKeys, Option.map_eq_some_iff] at h ⊢
  obtain ⟨e, he, rfl⟩ := h
  have hek : (e.1 == k) = true := by simpa using List.find?_some he
  exact ⟨e, find?_of_mem m.distinct
    (List.mem_of_mem_filter (List.mem_of_find?_eq_some he)) hek, rfl⟩

/-- A stored key that answers to `k` and is kept answers as before. -/
theorem find?_filterKeys {m : UnorderedMap κ ν} {keep : κ → Bool} {k : κ}
    (h : ∀ k' ∈ m.keys, (k' == k) = true → keep k' = true) :
    (m.filterKeys keep).find? k = m.find? k := by
  simp only [find?, filterKeys, List.find?_filter]
  congr 1
  refine List.find?_congr fun e he => ?_
  by_cases hk : (e.1 == k) = true
  · simp [hk, h e.1 (List.mem_map_of_mem he) hk]
  · simp [hk]

/-- Nothing is found when no key is kept. -/
theorem find?_filterKeys_none {m : UnorderedMap κ ν} {keep : κ → Bool} {k : κ}
    (h : ∀ k' ∈ m.keys, keep k' = false) : (m.filterKeys keep).find? k = none := by
  rw [find?_eq_none]
  intro e he
  obtain ⟨he, hkeep⟩ := List.mem_filter.mp he
  rw [h e.1 (List.mem_map_of_mem he)] at hkeep
  cases hkeep

section Insert

variable [EquivBEq κ]

private theorem find?_map_set (l : List (κ × ν)) (k k' : κ) (v : ν) :
    ((l.map fun e => if e.1 == k then (e.1, v) else e).find? fun e => e.1 == k').map Prod.snd =
      if k == k' then (l.find? fun e => e.1 == k').map fun _ => v
      else (l.find? fun e => e.1 == k').map Prod.snd := by
  induction l with
  | nil => simp
  | cons a as ih =>
      by_cases hak : (a.1 == k) = true
      · by_cases hk : (k == k') = true
        · simp [hak, hk, PartialEquivBEq.trans hak hk]
        · have hak' : (a.1 == k') = false := by
            rw [Bool.eq_false_iff]
            exact fun h => hk (PartialEquivBEq.trans (BEq.symm hak) h)
          simpa [List.find?_cons, hak, hk, hak'] using ih
      · by_cases hk' : (a.1 == k') = true
        · have hk : (k == k') = false := by
            rw [Bool.eq_false_iff]
            exact fun h => hak (PartialEquivBEq.trans hk' (BEq.symm h))
          simp [hak, hk, hk']
        · simpa [List.find?_cons, hak, hk'] using ih

theorem find?_insert (m : UnorderedMap κ ν) (k k' : κ) (v : ν) :
    (m.insert k v).find? k' = if k == k' then some v else m.find? k' := by
  unfold insert
  split
  · next h =>
      simp only [find?, List.find?_append]
      by_cases hk : (k == k') = true
      · have hnone : (m.entries.find? fun e => e.1 == k') = none := by
          rw [List.find?_eq_none]
          intro e he hek'
          have := find?_eq_none.mp h e he
          rw [PartialEquivBEq.trans hek' (BEq.symm hk)] at this
          cases this
        simp [hnone, hk]
      · simp [hk]
  · next h =>
      simp only [find?, find?_map_set]
      split
      · next hk =>
          obtain ⟨v', hv'⟩ := Option.ne_none_iff_exists'.mp h
          obtain ⟨e, he, -⟩ := Option.map_eq_some_iff.mp hv'
          have hmem := List.mem_of_find?_eq_some he
          have hek : (e.1 == k) = true := by simpa using List.find?_some he
          have : (m.entries.find? fun e => e.1 == k').isSome = true :=
            List.find?_isSome.mpr ⟨e, hmem, PartialEquivBEq.trans hek hk⟩
          obtain ⟨e', he'⟩ := Option.isSome_iff_exists.mp this
          rw [he']
          rfl
      · rfl

theorem find?_insert_self (m : UnorderedMap κ ν) (k : κ) (v : ν) :
    (m.insert k v).find? k = some v := by
  simp [find?_insert]

theorem find?_congr (m : UnorderedMap κ ν) {k k' : κ} (h : (k == k') = true) :
    m.find? k = m.find? k' := by
  have hfun : (fun e : κ × ν => e.1 == k) = fun e => e.1 == k' := by
    funext e
    rw [Bool.eq_iff_iff]
    exact ⟨fun he => PartialEquivBEq.trans he h,
      fun he => PartialEquivBEq.trans he (BEq.symm h)⟩
  rw [find?, find?, hfun]

theorem find?_erase (m : UnorderedMap κ ν) (k k' : κ) :
    (m.erase k).find? k' = if k == k' then none else m.find? k' := by
  by_cases hk : (k == k') = true
  · rw [if_pos hk, erase, find?_eq_none]
    intro e he
    have hne : (!(e.1 == k)) = true := (List.mem_filter.mp he).2
    rw [Bool.eq_false_iff]
    intro hek'
    rw [PartialEquivBEq.trans hek' (BEq.symm hk)] at hne
    cases hne
  · rw [if_neg hk, erase]
    refine find?_filterKeys fun k₁ _ h₁ => ?_
    rw [Bool.not_eq_true', Bool.eq_false_iff]
    exact fun h => hk (PartialEquivBEq.trans (BEq.symm h) h₁)

theorem size_insert_of_none {m : UnorderedMap κ ν} {k : κ} (v : ν)
    (h : m.find? k = none) : (m.insert k v).size = m.size + 1 := by
  simp [insert, h, size]

theorem keys_insert_of_none {m : UnorderedMap κ ν} {k : κ} (v : ν) (h : m.find? k = none) :
    (m.insert k v).keys = m.keys ++ [k] := by
  simp [insert, h, keys]

theorem keys_insert_of_some {m : UnorderedMap κ ν} {k : κ} (v : ν) (h : m.find? k ≠ none) :
    (m.insert k v).keys = m.keys := by
  unfold insert
  rw [dif_neg h]
  simp only [keys, List.map_map]
  refine List.map_congr_left fun e _ => ?_
  show (if (e.1 == k) = true then (e.1, v) else e).1 = e.1
  split <;> rfl

theorem fst_index (m : UnorderedMap κ ν) (k : κ) (dflt : ν) :
    (m.index k dflt).1 = (m.find? k).getD dflt := by
  unfold index
  cases m.find? k <;> rfl

theorem find?_index (m : UnorderedMap κ ν) (k k' : κ) (dflt : ν) :
    (m.index k dflt).2.find? k' =
      if k == k' then some ((m.find? k).getD dflt) else m.find? k' := by
  unfold index
  cases h : m.find? k with
  | none => simp [find?_insert]
  | some v =>
      by_cases hk : (k == k') = true
      · simp [hk, ← find?_congr m hk, h]
      · simp [hk]

end Insert

/-! ## One key and the others -/

/-- The entry of one key. -/
def only (m : UnorderedMap κ ν) (k : κ) : UnorderedMap κ ν := m.filterKeys fun k' => k' == k

theorem eq_of_entries {m m' : UnorderedMap κ ν} (h : m.entries = m'.entries) : m = m' := by
  cases m
  cases m'
  cases h
  rfl

theorem entries_insert_of_none [PartialEquivBEq κ] {m : UnorderedMap κ ν} {k : κ} (v : ν)
    (h : m.find? k = none) : (m.insert k v).entries = m.entries ++ [(k, v)] := by
  rw [insert, dif_pos h]

theorem entries_insert_of_some [PartialEquivBEq κ] {m : UnorderedMap κ ν} {k : κ} (v : ν)
    (h : m.find? k ≠ none) :
    (m.insert k v).entries = m.entries.map fun e => if e.1 == k then (e.1, v) else e := by
  rw [insert, dif_neg h]

theorem find?_only [PartialEquivBEq κ] (m : UnorderedMap κ ν) (k : κ) :
    (m.only k).find? k = m.find? k :=
  find?_filterKeys fun _ _ h => h

theorem entries_only (m : UnorderedMap κ ν) (k : κ) :
    (m.only k).entries = m.entries.filter fun e => e.1 == k := rfl

theorem entries_erase (m : UnorderedMap κ ν) (k : κ) :
    (m.erase k).entries = m.entries.filter fun e => !(e.1 == k) := rfl

/-- Overwriting a value leaves the keys alone. -/
private theorem filter_overwrite (l : List (κ × ν)) (k : κ) (v : ν) (P : κ → Bool) :
    (l.map fun e => if e.1 == k then (e.1, v) else e).filter (fun e => P e.1) =
      (l.filter fun e => P e.1).map fun e => if e.1 == k then (e.1, v) else e := by
  rw [List.filter_map]
  congr 1
  refine List.filter_congr fun e _ => ?_
  show P (if (e.1 == k) = true then (e.1, v) else e).1 = P e.1
  split <;> rfl

theorem only_insert [EquivBEq κ] (m : UnorderedMap κ ν) (k : κ) (v : ν) :
    (m.insert k v).only k = (m.only k).insert k v := by
  refine eq_of_entries ?_
  by_cases h : m.find? k = none
  · rw [entries_insert_of_none v ((find?_only m k).trans h), entries_only, entries_only,
      entries_insert_of_none v h, List.filter_append]
    simp
  · have h' : (m.only k).find? k ≠ none := by rwa [find?_only]
    rw [entries_insert_of_some v h', entries_only, entries_only, entries_insert_of_some v h]
    exact filter_overwrite _ _ _ fun k' => k' == k

/-- An insertion changes no other entry. -/
theorem erase_insert [EquivBEq κ] (m : UnorderedMap κ ν) (k : κ) (v : ν) :
    (m.insert k v).erase k = m.erase k := by
  refine eq_of_entries ?_
  rw [entries_erase, entries_erase]
  by_cases h : m.find? k = none
  · rw [entries_insert_of_none v h, List.filter_append]
    simp
  · rw [entries_insert_of_some v h, filter_overwrite _ _ _ fun k' => !(k' == k)]
    refine (List.map_congr_left fun e he => ?_).trans (List.map_id _)
    have hne : (!(e.1 == k)) = true := (List.mem_filter.mp he).2
    rw [Bool.not_eq_true'] at hne
    rw [hne]
    rfl

theorem only_erase (m : UnorderedMap κ ν) (k : κ) : (m.erase k).only k = (m.only k).erase k := by
  refine eq_of_entries ?_
  rw [entries_only, entries_erase, entries_erase, entries_only, List.filter_filter,
    List.filter_filter]
  exact List.filter_congr fun e _ => Bool.and_comm _ _

theorem only_only (m : UnorderedMap κ ν) (k : κ) : (m.only k).only k = m.only k := by
  refine eq_of_entries ?_
  rw [entries_only, entries_only, List.filter_filter]
  exact List.filter_congr fun e _ => Bool.and_self _

theorem erase_erase (m : UnorderedMap κ ν) (k : κ) : (m.erase k).erase k = m.erase k := by
  refine eq_of_entries ?_
  rw [entries_erase, entries_erase, List.filter_filter]
  exact List.filter_congr fun e _ => Bool.and_self _

/-- What is there under another key is there among the others. -/
theorem only_erase_of_ne [EquivBEq κ] (m : UnorderedMap κ ν) {k k' : κ}
    (h : (k == k') = false) : (m.erase k).only k' = m.only k' := by
  refine eq_of_entries ?_
  rw [entries_only, entries_erase, entries_only, List.filter_filter]
  refine List.filter_congr fun e _ => ?_
  by_cases hk' : (e.1 == k') = true
  · have hk : (e.1 == k) = false := by
      rw [Bool.eq_false_iff]
      intro hk
      rw [PartialEquivBEq.trans (BEq.symm hk) hk'] at h
      cases h
    rw [hk', hk]
    rfl
  · rw [Bool.not_eq_true] at hk'
    rw [hk']
    rfl

/-- A map is the entry of a key and the others, in some order. -/
theorem perm_only_erase (m : UnorderedMap κ ν) (k : κ) :
    ((m.only k).entries ++ (m.erase k).entries).Perm m.entries :=
  List.filter_append_perm _ _

/-- Two maps with the same entry of a key and the same others. -/
theorem perm_of_only {m m' : UnorderedMap κ ν} {k : κ} (honly : m.only k = m'.only k)
    (herase : (m.erase k).entries.Perm (m'.erase k).entries) : m.entries.Perm m'.entries := by
  have hsplit := (m.perm_only_erase k).symm.trans (herase.append_left _)
  rw [honly] at hsplit
  exact hsplit.trans (m'.perm_only_erase k)

theorem erase_comm (m : UnorderedMap κ ν) (k k' : κ) :
    (m.erase k).erase k' = (m.erase k').erase k := by
  refine eq_of_entries ?_
  rw [entries_erase, entries_erase, entries_erase, entries_erase, List.filter_filter,
    List.filter_filter]
  exact List.filter_congr fun e _ => Bool.and_comm _ _

/-- Two maps with the same entries of two keys and the same others. -/
theorem perm_of_only_only [EquivBEq κ] {m m' : UnorderedMap κ ν} {k k' : κ}
    (hne : (k == k') = false) (hk : m.only k = m'.only k) (hk' : m.only k' = m'.only k')
    (herase : (m.erase k).erase k' = (m'.erase k).erase k') : m.entries.Perm m'.entries := by
  refine perm_of_only hk (perm_of_only (k := k') ?_ ?_)
  · rw [only_erase_of_ne m hne, only_erase_of_ne m' hne, hk']
  · rw [herase]

/-- Looking one key up reads its entry only, and adds at most that. -/
theorem index_only [EquivBEq κ] (m : UnorderedMap κ ν) (k : κ) (dflt : ν) :
    (m.only k).index k dflt = ((m.index k dflt).1, (m.index k dflt).2.only k) := by
  unfold index
  rw [find?_only]
  cases m.find? k with
  | none => exact Prod.ext rfl (only_insert m k dflt).symm
  | some v => rfl

theorem erase_index [EquivBEq κ] (m : UnorderedMap κ ν) (k : κ) (dflt : ν) :
    (m.index k dflt).2.erase k = m.erase k := by
  unfold index
  cases m.find? k with
  | none => exact erase_insert m k dflt
  | some v => rfl

theorem length_keys (m : UnorderedMap κ ν) : m.keys.length = m.size := List.length_map _

section Lawful

variable [LawfulBEq κ]

theorem nodup_keys (m : UnorderedMap κ ν) : m.keys.Nodup := by
  refine List.pairwise_map.mpr (m.distinct.imp ?_)
  intro a b hab heq
  rw [heq, BEq.rfl] at hab
  cases hab

theorem mem_keys_iff {m : UnorderedMap κ ν} {k : κ} : k ∈ m.keys ↔ m.find? k ≠ none := by
  rw [Ne, find?_eq_none, keys, List.mem_map]
  constructor
  · rintro ⟨e, he, rfl⟩ hnone
    have h := hnone e he
    rw [BEq.rfl] at h
    cases h
  · intro h
    simp only [not_forall] at h
    obtain ⟨e, he, hek⟩ := h
    rw [Bool.not_eq_false, beq_iff_eq] at hek
    exact ⟨e, he, hek⟩

theorem mem_keys_insert {m : UnorderedMap κ ν} {k k' : κ} {v : ν} :
    k' ∈ (m.insert k v).keys ↔ k' = k ∨ k' ∈ m.keys := by
  rw [mem_keys_iff, mem_keys_iff, find?_insert]
  by_cases hk : k = k'
  · subst hk
    simp
  · have : (k == k') = false := by rw [beq_eq_false_iff_ne]; exact hk
    rw [this]
    exact ⟨.inr, fun h => h.resolve_left fun h => hk h.symm⟩

theorem mem_entries_iff {m : UnorderedMap κ ν} {k : κ} {v : ν} :
    (k, v) ∈ m.entries ↔ m.find? k = some v := by
  constructor
  · intro h
    rw [find?, Option.map_eq_some_iff]
    cases hfind : m.entries.find? fun e => e.1 == k with
    | none =>
        have hk := List.find?_eq_none.mp hfind (k, v) h
        rw [BEq.rfl] at hk
        exact absurd rfl hk
    | some e =>
        have hbeq := List.find?_some hfind
        have hk : e.1 = k := beq_iff_eq.mp hbeq
        have hmap : (m.entries.map Prod.fst).Nodup := m.nodup_keys
        refine ⟨e, rfl, ?_⟩
        rw [List.inj_on_of_nodup_map hmap (List.mem_of_find?_eq_some hfind) h hk]
  · intro h
    rw [find?, Option.map_eq_some_iff] at h
    obtain ⟨e, hfind, rfl⟩ := h
    have hbeq := List.find?_some hfind
    have hk : e.1 = k := beq_iff_eq.mp hbeq
    rw [← hk]
    exact List.mem_of_find?_eq_some hfind

/-- An entry after an insertion is the inserted one or one from before. -/
theorem mem_entries_insert {m : UnorderedMap κ ν} {k : κ} {v : ν} {e : κ × ν}
    (h : e ∈ (m.insert k v).entries) : e = (k, v) ∨ e ∈ m.entries := by
  unfold insert at h
  split at h
  · rcases List.mem_append.mp h with h | h
    · exact .inr h
    · exact .inl (List.mem_singleton.mp h)
  · obtain ⟨e', he', rfl⟩ := List.mem_map.mp h
    split
    · next hk => exact .inl (by rw [beq_iff_eq.mp hk])
    · exact .inr he'

end Lawful

end UnorderedMap

end P2PFileSharing
