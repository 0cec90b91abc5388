import Mathlib

/-!
# Frames of a fixed size in a stream

Messages travel in frames of one size, filled up with a unit that no message
contains. A stream has no marks: where a frame ends is a matter of counting, so
two cuttings of one stream into frames of that size agree as far as both go.
-/

namespace P2PFileSharing

variable {α : Type}

/-- A message in a frame of `n` units. -/
def pad (n : Nat) (z : α) (m : List α) : List α := m ++ List.replicate (n - m.length) z

/-- What a frame holds before the first filler. -/
def unpad [DecidableEq α] (z : α) (frame : List α) : List α := frame.takeWhile fun c => c ≠ z

theorem length_pad {n : Nat} {z : α} {m : List α} (h : m.length ≤ n) : (pad n z m).length = n := by
  rw [pad, List.length_append, List.length_replicate]
  omega

/-- The filling lies behind the message. -/
theorem take_pad {n k : Nat} {z : α} {m : List α} (h : k ≤ m.length) :
    (pad n z m).take k = m.take k := by
  rw [pad, List.take_append_of_le_length h]

theorem decide_ne_of_notMem [DecidableEq α] {z : α} {m : List α} (h : z ∉ m) :
    ∀ c ∈ m, decide (c ≠ z) = true := by
  intro c hc
  rw [decide_eq_true_eq]
  intro h
  obtain rfl := h
  exact h hc

/-- What stands before the first separator. -/
theorem takeWhile_append_sep [DecidableEq α] {z : α} {m : List α} (h : z ∉ m) (rest : List α) :
    (m ++ z :: rest).takeWhile (fun c => c ≠ z) = m := by
  rw [List.takeWhile_append_of_pos (decide_ne_of_notMem h)]
  simp

theorem dropWhile_append_sep [DecidableEq α] {z : α} {m : List α} (h : z ∉ m) (rest : List α) :
    (m ++ z :: rest).dropWhile (fun c => c ≠ z) = z :: rest := by
  rw [List.dropWhile_append_of_pos (decide_ne_of_notMem h)]
  simp

theorem unpad_pad [DecidableEq α] {n : Nat} {z : α} {m : List α} (h : z ∉ m) :
    unpad z (pad n z m) = m := by
  rw [unpad, pad, List.takeWhile_append_of_pos (decide_ne_of_notMem h)]
  cases n - m.length with
  | zero => exact List.append_nil m
  | succ k => simp [List.replicate_succ]

/-- Frames cut from the front of a stream of frames are the first of these. -/
theorem frames_earlier {n : Nat} (hn : 0 < n) {xs : List (List α)} :
    ∀ {ys : List (List α)} {r : List α}, (∀ x ∈ xs, x.length = n) → (∀ y ∈ ys, y.length = n) →
    xs.flatten ++ r = ys.flatten → ∃ zs, ys = xs ++ zs ∧ r = zs.flatten := by
  induction xs with
  | nil =>
      intro ys r _ _ h
      exact ⟨ys, rfl, h⟩
  | cons x xs ih =>
      intro ys r hx hy h
      have hxn : x.length = n := hx x List.mem_cons_self
      cases ys with
      | nil =>
          rw [List.flatten_cons, List.flatten_nil, List.append_assoc] at h
          have hnil : x = [] := (List.append_eq_nil_iff.mp h).1
          rw [hnil, List.length_nil] at hxn
          omega
      | cons y ys =>
          have hyn : y.length = n := hy y List.mem_cons_self
          rw [List.flatten_cons, List.flatten_cons, List.append_assoc] at h
          obtain ⟨rfl, hrest⟩ := List.append_inj h (by rw [hxn, hyn])
          obtain ⟨zs, rfl, hr⟩ := ih (fun x' hx' => hx x' (List.mem_cons_of_mem _ hx'))
            (fun y' hy' => hy y' (List.mem_cons_of_mem _ hy')) hrest
          exact ⟨zs, rfl, hr⟩

/-- A remainder of frames that is shorter than one is none. -/
theorem frames_none {n : Nat} {zs : List (List α)} (hz : ∀ z ∈ zs, z.length = n)
    (h : zs.flatten.length < n) : zs = [] := by
  cases zs with
  | nil => rfl
  | cons z zs =>
      have hzn := hz z List.mem_cons_self
      rw [List.flatten_cons, List.length_append] at h
      omega

/-- The frames that are complete in a stream. -/
def wholeFrames (n : Nat) (xs : List α) : List (List α) :=
  (List.range (xs.length / n)).map fun i => (xs.drop (i * n)).take n

theorem wholeFrames_short {n : Nat} {xs : List α} (h : xs.length < n) : wholeFrames n xs = [] := by
  rw [wholeFrames, Nat.div_eq_of_lt h]
  rfl

/-- Frames at the front of a stream are among the complete ones. -/
theorem wholeFrames_append {n : Nat} (hn : 0 < n) {frames : List (List α)}
    (h : ∀ frame ∈ frames, frame.length = n) (rest : List α) :
    wholeFrames n (frames.flatten ++ rest) = frames ++ wholeFrames n rest := by
  induction frames with
  | nil => rfl
  | cons frame frames ih =>
      have hlen : frame.length = n := h frame List.mem_cons_self
      have hdiv : (frame ++ (frames.flatten ++ rest)).length / n =
          (frames.flatten ++ rest).length / n + 1 := by
        rw [List.length_append, hlen, Nat.add_comm, Nat.add_div_right _ hn]
      rw [List.flatten_cons, List.append_assoc, wholeFrames, hdiv, List.range_succ_eq_map,
        List.map_cons, Nat.zero_mul, List.drop_zero, List.take_left' hlen, List.map_map,
        List.cons_append]
      congr 1
      refine Eq.trans (List.map_congr_left fun i _ => ?_)
        (ih fun x hx => h x (List.mem_cons_of_mem _ hx))
      rw [Function.comp_apply, Nat.succ_mul, Nat.add_comm, ← List.drop_drop, List.drop_left' hlen]

/-- However they came to be cut, frames with less than one behind them are the complete ones. -/
theorem wholeFrames_eq {n : Nat} {frames : List (List α)} {rest : List α}
    (h : ∀ frame ∈ frames, frame.length = n) (hrest : rest.length < n) :
    wholeFrames n (frames.flatten ++ rest) = frames := by
  rw [wholeFrames_append (by omega) h, wholeFrames_short hrest, List.append_nil]

/-- Pieces of one size, one after the other. -/
theorem flatten_pieces (n : Nat) (xs : List α) (k : Nat) :
    ((List.range k).map fun i => (xs.drop (i * n)).take n).flatten = xs.take (k * n) := by
  induction k with
  | zero =>
      rw [Nat.zero_mul, List.take_zero]
      rfl
  | succ k ih =>
      rw [List.range_succ, List.map_append, List.flatten_append, ih, List.map_singleton,
        List.flatten_singleton, Nat.succ_mul, List.take_add]

end P2PFileSharing
