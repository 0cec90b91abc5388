import P2PFileSharing.Model.Lines
import P2PFileSharing.Proofs.Codec

/-!
# Lines, numbers and what is behind a character
-/

namespace P2PFileSharing

theorem getlinesFrom_eq (text : Str) :
    ∀ (line : Str) (n : Nat), getlinesFrom text line = splitStringFrom ['\n'] (-1) text line n := by
  induction text with
  | nil => exact fun _ _ => rfl
  | cons c rest ih =>
      intro line n
      rw [getlinesFrom, splitStringFrom]
      by_cases hc : c = '\n'
      · rw [if_pos hc, if_pos (List.mem_singleton.mpr hc), if_neg (by omega), ih [] (n + 1)]
      · rw [if_neg hc, if_neg (fun h => hc (List.mem_singleton.mp h)), ih (line ++ [c]) n]

/-- The lines of a text are its pieces between newlines. -/
theorem getlines_eq_splitString (text : Str) : getlines text = splitString text ['\n'] :=
  getlinesFrom_eq text [] 0

theorem afterFirst_append {c : Char} {front : Str} (h : c ∉ front) (rest : Str) :
    afterFirst c (front ++ c :: rest) = rest := by
  have hmem : (front ++ c :: rest).contains c = true :=
    List.contains_iff_mem.mpr (List.mem_append_right _ List.mem_cons_self)
  rw [afterFirst, if_pos hmem, dropWhile_append_sep h, List.tail_cons]

theorem isNumber_intToString {n : Int} (h : 0 ≤ n) : isNumber (intToString n) = true := by
  have hdigits : (intToString n).all Char.isDigit = true := by
    rw [intToString, if_neg (by omega), List.all_eq_true]
    exact fun c hc => natToString_isDigit hc
  rw [isNumber, hdigits, Bool.and_true, Bool.not_eq_true', List.isEmpty_eq_false_iff]
  exact intToString_ne_nil n

end P2PFileSharing
