import Mathlib

/-!
# Counting in lists

Sums of weights that at most one element has, lists in which every key occurs at
most once, and lists whose elements are numbered by their owners.
-/

namespace P2PFileSharing

variable {α β : Type}

/-- If at most one element P and each counts for at most `n`, the sum is at
most `n`. -/
theorem sum_map_le_of_countP {l : List α} {P : α → Bool} {weight : α → Nat} {n : Nat}
    (hone : l.countP P ≤ 1) (hzero : ∀ x ∈ l, P x = false → weight x = 0)
    (hle : ∀ x ∈ l, weight x ≤ n) : (l.map weight).sum ≤ n := by
  induction l with
  | nil => exact Nat.zero_le n
  | cons a rest ih =>
      rw [List.map_cons, List.sum_cons]
      have hrest := ih (by rw [List.countP_cons] at hone; omega)
        (fun x hx => hzero x (List.mem_cons_of_mem a hx))
        (fun x hx => hle x (List.mem_cons_of_mem a hx))
      cases ha : P a with
      | false =>
          rw [hzero a List.mem_cons_self ha]
          omega
      | true =>
          have hnone : rest.countP P = 0 := by
            rw [List.countP_cons, if_pos ha] at hone
            omega
          have hsum : (rest.map weight).sum = 0 := by
            refine List.sum_eq_zero ?_
            intro k hk
            obtain ⟨x, hx, rfl⟩ := List.mem_map.mp hk
            refine hzero x (List.mem_cons_of_mem a hx) ?_
            simpa using (List.countP_eq_zero.mp hnone) x hx
          have := hle a List.mem_cons_self
          omega

theorem sum_map_indicator (l : List α) (P : α → Bool) :
    (l.map fun x => if P x = true then 1 else 0).sum = l.countP P := by
  induction l with
  | nil => rfl
  | cons a rest ih => rw [List.map_cons, List.sum_cons, ih, List.countP_cons, Nat.add_comm]

/-- What the elements of a list without repetitions bring, when one of them brings something
else. -/
theorem sum_map_changed {l : List α} (hnodup : l.Nodup) {a : α} (ha : a ∈ l) (f f' : α → Nat)
    (hne : ∀ b, b ≠ a → f' b = f b) : (l.map f').sum + f a = (l.map f).sum + f' a := by
  induction l with
  | nil => cases ha
  | cons b rest ih =>
      obtain ⟨hb, hrest⟩ := List.nodup_cons.mp hnodup
      simp only [List.map_cons, List.sum_cons]
      by_cases hba : b = a
      · subst hba
        have hsame : rest.map f' = rest.map f :=
          List.map_congr_left fun c hc => hne c fun hcb => hb (hcb ▸ hc)
        rw [hsame]
        omega
      · have hrec := ih hrest ((List.mem_cons.mp ha).resolve_left (Ne.symm hba))
        rw [hne b hba]
        omega

theorem countP_changed {l : List α} (hnodup : l.Nodup) {a : α} (ha : a ∈ l) {P P' : α → Bool}
    (hne : ∀ b, b ≠ a → P' b = P b) (hold : P a = false) (hnew : P' a = true) :
    l.countP P' = l.countP P + 1 := by
  have h := sum_map_changed hnodup ha (fun b => if P b = true then 1 else 0)
    (fun b => if P' b = true then 1 else 0) fun b hb => by rw [hne b hb]
  rw [sum_map_indicator, sum_map_indicator, hold, hnew] at h
  simpa using h

/-- A place in a list, with what comes before and after it. -/
theorem exists_split_of_getElem? {l : List α} {i : Nat} {a : α} (h : l[i]? = some a) :
    ∃ pre post, l = pre ++ a :: post ∧ ∀ b, l.set i b = pre ++ b :: post := by
  obtain ⟨hi, rfl⟩ := List.getElem?_eq_some_iff.mp h
  refine ⟨l.take i, l.drop (i + 1), ?_, fun b => List.set_eq_take_append_cons_drop .. ▸ if_pos hi⟩
  rw [← List.drop_eq_getElem_cons hi, List.take_append_drop]

/-- What the elements bring, when one of them is replaced. -/
theorem count_flatMap_set [DecidableEq β] {l : List α} {i : Nat} {a : α} (f : α → List β)
    (h : l[i]? = some a) (b : α) (x : β) :
    ((l.set i b).flatMap f).count x + (f a).count x =
      (l.flatMap f).count x + (f b).count x := by
  obtain ⟨pre, post, heq, hset⟩ := exists_split_of_getElem? h
  rw [hset, heq]
  simp only [List.flatMap_append, List.flatMap_cons, List.count_append]
  omega

/-- If no key occurs twice and all keys are listed, there are at most as many
elements as listed keys. -/
theorem length_le_of_keys [DecidableEq β] {l : List α} {key : α → β} {keys : List β}
    (hone : ∀ k, l.countP (fun x => key x = k) ≤ 1) (hmem : ∀ x ∈ l, key x ∈ keys) :
    l.length ≤ keys.length := by
  have hnodup : (l.map key).Nodup := by
    rw [List.nodup_iff_count_le_one]
    intro k
    rw [List.count, List.countP_map]
    exact hone k
  have hsub : l.map key ⊆ keys := by
    intro k hk
    obtain ⟨x, hx, rfl⟩ := List.mem_map.mp hk
    exact hmem x hx
  have := (List.subperm_of_subset hnodup hsub).length_le
  rwa [List.length_map] at this

/-- What elements bring to their owners is at most what they bring. -/
theorem sum_owned_le [DecidableEq β] {owners : List β} (hnodup : owners.Nodup)
    (l : List (β × α)) (weight : β × α → Nat) :
    (owners.map fun b => (l.map fun x => if x.1 = b then weight x else 0).sum).sum ≤
      (l.map weight).sum := by
  induction l with
  | nil => exact Nat.le_of_eq (List.sum_eq_zero (by simp))
  | cons a rest ih =>
      simp only [List.map_cons, List.sum_cons, List.sum_map_add]
      refine Nat.add_le_add ?_ ih
      refine sum_map_le_of_countP (P := fun b => decide (a.1 = b)) ?_ ?_ ?_
      · have hone := List.nodup_iff_count_le_one.mp hnodup a.1
        refine Nat.le_trans (Nat.le_of_eq (List.countP_congr fun b _ => ?_)) hone
        rw [decide_eq_true_eq, beq_iff_eq]
        exact eq_comm
      · intro b _ hb
        exact if_neg (of_decide_eq_false hb)
      · intro b _
        split
        · exact Nat.le_refl _
        · exact Nat.zero_le _

/-- Of elements that at most one place in the list has, there is one. -/
theorem eq_of_countP_le_one {l : List α} {P : α → Bool} (hone : l.countP P ≤ 1) {x y : α}
    (hx : x ∈ l) (hy : y ∈ l) (hPx : P x = true) (hPy : P y = true) : x = y := by
  have hfilter : (l.filter P).length ≤ 1 := by rwa [← List.countP_eq_length_filter]
  have hmem : ∀ z ∈ l, P z = true → z ∈ l.filter P := fun z hz hP =>
    List.mem_filter.mpr ⟨hz, hP⟩
  match heq : l.filter P, hfilter with
  | [], _ =>
      have hnone := hmem x hx hPx
      rw [heq] at hnone
      cases hnone
  | [z], _ =>
      have hxz := hmem x hx hPx
      have hyz := hmem y hy hPy
      rw [heq, List.mem_singleton] at hxz hyz
      rw [hxz, hyz]

/-- What elements bring of which only one brings anything. -/
theorem flatMap_of_countP_le_one {l : List α} {P : α → Bool} {g : α → List β}
    (hone : l.countP P ≤ 1) (hnone : ∀ x ∈ l, P x = false → g x = []) {x : α} (hx : x ∈ l)
    (hPx : P x = true) : l.flatMap g = g x := by
  induction l with
  | nil => cases hx
  | cons a rest ih =>
      rw [List.flatMap_cons]
      have hrest : ∀ y ∈ rest, P y = false → g y = [] := fun y hy =>
        hnone y (List.mem_cons_of_mem a hy)
      cases ha : P a with
      | true =>
          have hzero : rest.countP P = 0 := by
            rw [List.countP_cons, if_pos ha] at hone
            omega
          have heq : x = a := eq_of_countP_le_one hone hx List.mem_cons_self hPx ha
          have hnil : rest.flatMap g = [] := by
            rw [List.flatMap_eq_nil_iff]
            intro y hy
            exact hrest y hy (by simpa using List.countP_eq_zero.mp hzero y hy)
          rw [hnil, List.append_nil, heq]
      | false =>
          rw [hnone a List.mem_cons_self ha, List.nil_append]
          rcases List.mem_cons.mp hx with rfl | hx
          · rw [ha] at hPx
            cases hPx
          · refine ih ?_ hrest hx
            rw [List.countP_cons] at hone
            omega

/-! ## Numbered elements -/

section Numbered

variable [DecidableEq β] {owner : α → β} {number : α → Nat} {l : List α} {count : β → Nat}

/-- Every owner numbers its elements from 0 on, in the order of the list. -/
def Numbered (owner : α → β) (number : α → Nat) (l : List α) (count : β → Nat) : Prop :=
  ∀ b, (l.filter fun a => owner a = b).map number = List.range (count b)

theorem numbered_nil : Numbered owner number [] fun _ => 0 := fun _ => rfl

theorem Numbered.congr (h : Numbered owner number l count) {count' : β → Nat}
    (hcount : ∀ b, count' b = count b) : Numbered owner number l count' := by
  intro b
  rw [hcount b]
  exact h b

/-- The next element gets its owner's next number. -/
theorem Numbered.append (h : Numbered owner number l count) {a : α}
    (ha : number a = count (owner a)) {count' : β → Nat}
    (hself : count' (owner a) = count (owner a) + 1)
    (hother : ∀ b, b ≠ owner a → count' b = count b) :
    Numbered owner number (l ++ [a]) count' := by
  intro b
  rw [List.filter_append, List.map_append, h b]
  by_cases hb : owner a = b
  · subst hb
    rw [List.filter_cons_of_pos (by simp), hself, List.range_succ, ← ha]
    rfl
  · rw [List.filter_cons_of_neg (by simpa using hb), hother b (Ne.symm hb)]
    exact List.append_nil _

theorem Numbered.count_le (h : Numbered owner number l count) (b : β) : count b ≤ l.length := by
  have hlength := congrArg List.length (h b)
  rw [List.length_map, List.length_range] at hlength
  rw [← hlength]
  exact List.length_filter_le _ _

/-- So no two places have the same owner and number. -/
theorem Numbered.pairwise (h : Numbered owner number l count) :
    l.Pairwise fun a b => ¬(owner a = owner b ∧ number a = number b) := by
  rw [List.pairwise_iff_forall_sublist]
  intro a b hab hsame
  obtain ⟨howner, hnumber⟩ := hsame
  have hsub := (hab.filter fun x => owner x = owner b).map number
  rw [h (owner b), List.filter_cons_of_pos (by simpa using howner),
    List.filter_cons_of_pos (by simp)] at hsub
  have hnodup := List.nodup_range.sublist hsub
  rw [List.map_cons, hnumber] at hnodup
  exact (List.nodup_cons.mp hnodup).1 (by simp)

end Numbered

end P2PFileSharing
