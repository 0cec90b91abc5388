import P2PFileSharing.Model.Lines

/-!
# Cutting a text into messages

`SplitCommandStringBySize` compares the length of a line alone with the limit, and the length
of the message so far with the line; but when it begins a message with a line, it does not
look whether the command and the line fit. Nothing is lost, and every message begins with the
command. The messages are within the limit just when the command is, and every line under it.
-/

namespace P2PFileSharing

variable {command body : Str} {maxSize : Nat} {lines outputs result : List Str}

/-- How every message begins. -/
def commandPrefix (command : Str) : Str := command ++ ['\n']

/-- What comes after the beginning. -/
def chunkBody (command output : Str) : Str := output.drop (commandPrefix command).length

/-- Messages that are within the limit, begin with the command and have the lines in them. -/
structure GoodChunks (command : Str) (maxSize : Nat) (lines outputs : List Str) : Prop where
  size : ∀ output ∈ outputs, output.length ≤ maxSize
  begins : ∀ output ∈ outputs, commandPrefix command <+: output
  content : outputs.flatMap (chunkBody command) = lines.flatMap fun line => line ++ ['\n']

/-- The command, and every line under it, are within the limit. -/
def LinesFit (command : Str) (maxSize : Nat) (lines : List Str) : Prop :=
  (commandPrefix command).length ≤ maxSize ∧
    ∀ line ∈ lines, (commandPrefix command).length + (line ++ ['\n']).length ≤ maxSize

/-! ## The loop -/

theorem chunkBody_append (command body : Str) :
    chunkBody command (commandPrefix command ++ body) = body := List.drop_left

/-- A line goes to the message it comes to, or begins the next one. -/
theorem splitCommandLoop_cons {line : Str} {rest : List Str}
    (h : splitCommandLoop command maxSize (line :: rest) outputs (commandPrefix command ++ body) =
      .ok result) :
    ((commandPrefix command ++ body).length + line.length + 2 > maxSize ∧
        splitCommandLoop command maxSize rest (outputs ++ [commandPrefix command ++ body])
          (commandPrefix command ++ (line ++ ['\n'])) = .ok result) ∨
      ((commandPrefix command ++ body).length + line.length + 2 ≤ maxSize ∧
        splitCommandLoop command maxSize rest outputs
          (commandPrefix command ++ (body ++ (line ++ ['\n']))) = .ok result) := by
  rw [splitCommandLoop] at h
  split at h
  · cases h
  · split at h
    · next hflush => exact .inl ⟨hflush, h⟩
    · next hkeep =>
        rw [List.append_assoc] at h
        exact .inr ⟨Nat.not_lt.mp hkeep, h⟩

theorem splitCommandLoop_nil
    (h : splitCommandLoop command maxSize [] outputs (commandPrefix command ++ body) =
      .ok result) : result = outputs ++ [commandPrefix command ++ body] := by
  have hne : commandPrefix command ++ body ≠ [] := by
    rw [commandPrefix, List.append_assoc]
    exact List.append_ne_nil_of_right_ne_nil _ (List.cons_ne_nil _ _)
  rw [splitCommandLoop, if_neg hne] at h
  injection h with h
  exact h.symm

/-- Every message begins with the command, and nothing is lost. -/
theorem splitCommandLoop_content (lines : List Str) :
    ∀ (outputs : List Str) (body : Str),
      (∀ output ∈ outputs, commandPrefix command <+: output) →
      splitCommandLoop command maxSize lines outputs (commandPrefix command ++ body) = .ok result →
      (∀ output ∈ result, commandPrefix command <+: output) ∧
        result.flatMap (chunkBody command) = outputs.flatMap (chunkBody command) ++
          (body ++ lines.flatMap fun line => line ++ ['\n']) := by
  induction lines with
  | nil =>
      intro outputs body houtputs h
      rw [splitCommandLoop_nil h]
      refine ⟨List.forall_mem_append.mpr ⟨houtputs, ?_⟩, ?_⟩
      · exact List.forall_mem_singleton.mpr (List.prefix_append _ _)
      · rw [List.flatMap_append, List.flatMap_singleton, chunkBody_append, List.flatMap_nil,
          List.append_nil]
  | cons line rest ih =>
      intro outputs body houtputs h
      rw [List.flatMap_cons]
      rcases splitCommandLoop_cons h with ⟨-, h⟩ | ⟨-, h⟩
      · obtain ⟨hbegins, hcontent⟩ := ih _ _ (List.forall_mem_append.mpr ⟨houtputs,
          List.forall_mem_singleton.mpr (List.prefix_append _ _)⟩) h
        refine ⟨hbegins, ?_⟩
        rw [hcontent, List.flatMap_append, List.flatMap_singleton, chunkBody_append,
          List.append_assoc]
      · obtain ⟨hbegins, hcontent⟩ := ih _ _ houtputs h
        refine ⟨hbegins, ?_⟩
        rw [hcontent, List.append_assoc]

/-- If everything fits, the messages do. -/
theorem splitCommandLoop_size (lines : List Str) :
    ∀ (outputs : List Str) (body : Str), (∀ output ∈ outputs, output.length ≤ maxSize) →
      (commandPrefix command ++ body).length ≤ maxSize →
      (∀ line ∈ lines, (commandPrefix command).length + (line ++ ['\n']).length ≤ maxSize) →
      splitCommandLoop command maxSize lines outputs (commandPrefix command ++ body) = .ok result →
      ∀ output ∈ result, output.length ≤ maxSize := by
  induction lines with
  | nil =>
      intro outputs body houtputs hbody _ h
      rw [splitCommandLoop_nil h]
      exact List.forall_mem_append.mpr ⟨houtputs, List.forall_mem_singleton.mpr hbody⟩
  | cons line rest ih =>
      intro outputs body houtputs hbody hfit h
      obtain ⟨hline, hrest⟩ := List.forall_mem_cons.mp hfit
      rcases splitCommandLoop_cons h with ⟨-, h⟩ | ⟨hkeep, h⟩
      · refine ih _ _ (List.forall_mem_append.mpr ⟨houtputs, List.forall_mem_singleton.mpr hbody⟩)
          ?_ hrest h
        rw [List.length_append]
        exact hline
      · refine ih _ _ houtputs ?_ hrest h
        rw [List.length_append] at hkeep
        simp only [List.length_append, List.length_singleton]
        omega

/-- The messages so far are put out, and the one at hand, with all that comes to it. -/
theorem splitCommandLoop_puts (lines : List Str) :
    ∀ (outputs : List Str) (body : Str),
      splitCommandLoop command maxSize lines outputs (commandPrefix command ++ body) = .ok result →
      (∀ output ∈ outputs, output ∈ result) ∧
        (∃ output ∈ result, (commandPrefix command ++ body).length ≤ output.length) ∧
          ∀ line ∈ lines, ∃ output ∈ result,
            (commandPrefix command).length + (line ++ ['\n']).length ≤ output.length := by
  induction lines with
  | nil =>
      intro outputs body h
      rw [splitCommandLoop_nil h]
      exact ⟨fun output houtput => List.mem_append_left _ houtput,
        ⟨_, List.mem_append_right _ List.mem_cons_self, Nat.le_refl _⟩, List.forall_mem_nil _⟩
  | cons line rest ih =>
      intro outputs body h
      rcases splitCommandLoop_cons h with ⟨-, h⟩ | ⟨-, h⟩
      · obtain ⟨hmem, ⟨output, houtput, hle⟩, hrest⟩ := ih _ _ h
        refine ⟨fun x hx => hmem x (List.mem_append_left _ hx),
          ⟨_, hmem _ (List.mem_append_right _ List.mem_cons_self), Nat.le_refl _⟩,
          List.forall_mem_cons.mpr ⟨⟨output, houtput, ?_⟩, hrest⟩⟩
        rw [List.length_append] at hle
        exact hle
      · obtain ⟨hmem, ⟨output, houtput, hle⟩, hrest⟩ := ih _ _ h
        rw [← List.append_assoc, List.length_append] at hle
        refine ⟨hmem, ⟨output, houtput, by omega⟩,
          List.forall_mem_cons.mpr ⟨⟨output, houtput, ?_⟩, hrest⟩⟩
        rw [List.length_append] at hle
        omega

/-! ## The whole text -/

/-- Whenever `SplitCommandStringBySize` returns, its messages are good just when the command and
every line under it are within the limit. -/
theorem good_chunks_iff {inputString : Str}
    (h : splitCommandStringBySize inputString command maxSize = .ok outputs) :
    GoodChunks command maxSize (getlines inputString) outputs ↔
      LinesFit command maxSize (getlines inputString) := by
  have hloop : splitCommandLoop command maxSize (getlines inputString) []
      (commandPrefix command ++ []) = .ok outputs := by
    rw [List.append_nil]
    exact h
  constructor
  · intro hgood
    obtain ⟨-, ⟨output, houtput, hle⟩, hlines⟩ := splitCommandLoop_puts _ _ _ hloop
    rw [List.append_nil] at hle
    refine ⟨Nat.le_trans hle (hgood.size output houtput), fun line hline => ?_⟩
    obtain ⟨output, houtput, hle⟩ := hlines line hline
    exact Nat.le_trans hle (hgood.size output houtput)
  · intro hfit
    obtain ⟨hcommand, hlines⟩ := hfit
    obtain ⟨hbegins, hcontent⟩ := splitCommandLoop_content _ _ _ (List.forall_mem_nil _) hloop
    refine ⟨?_, hbegins, hcontent⟩
    refine splitCommandLoop_size _ _ _ (List.forall_mem_nil _) ?_ hlines hloop
    rw [List.append_nil]
    exact hcommand

/-- Two lines in messages of at most six characters. -/
theorem good_chunks_iff_two :
    GoodChunks ['c'] 6 (getlines ['a', '\n', 'b', 'b'])
        [['c', '\n', 'a', '\n'], ['c', '\n', 'b', 'b', '\n']] ↔
      LinesFit ['c'] 6 (getlines ['a', '\n', 'b', 'b']) := by
  have hsplit : splitCommandStringBySize ['a', '\n', 'b', 'b'] ['c'] 6 =
      .ok [['c', '\n', 'a', '\n'], ['c', '\n', 'b', 'b', '\n']] := rfl
  exact good_chunks_iff hsplit

/-- A line of two characters, a command of one, and a limit of four: it is in a message of
five. -/
theorem chunk_too_big :
    ¬∀ inputString command maxSize outputs, '\n' ∉ command →
      splitCommandStringBySize inputString command maxSize = .ok outputs →
      GoodChunks command maxSize (getlines inputString) outputs := by
  intro hall
  have hgood := hall ['a', 'b'] ['c'] 4 [['c', '\n'], ['c', '\n', 'a', 'b', '\n']] (by decide) rfl
  have hsize := hgood.size ['c', '\n', 'a', 'b', '\n'] (by decide)
  revert hsize
  decide

end P2PFileSharing
