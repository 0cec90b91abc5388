import P2PFileSharing.Model.CommandLoop
import P2PFileSharing.Proofs.Lines

/-!
# Lines that do not fit the command buffer

`Run` reads its commands through an array of 100 characters, of which a line gets 98 besides
its newline and the NUL. A longer line is cut after every 99th character, and each piece is
taken for a command: the first has only the front of the argument, and the others may well be
valid. A line is one command just when it fits.
-/

namespace P2PFileSharing

variable {line rest : Str} {lines : List Str} {room : Nat}

/-- What can stand between two newlines of a text. -/
structure IsLine (line : Str) : Prop where
  newline : '\n' ∉ line
  nul : '\x00' ∉ line

/-- The pieces of a line, as long as a round can read; the last is shorter, and may be empty. -/
def cut (line : Str) : List Str :=
  (List.range (line.length / (userCommandSize - 1) + 1)).map fun i =>
    (line.drop (i * (userCommandSize - 1))).take (userCommandSize - 1)

/-! ## One round -/

theorem fgets_line (h : '\n' ∉ line) (hroom : line.length < room) :
    fgets room (line ++ '\n' :: rest) = (line ++ ['\n'], rest) := by
  induction line generalizing room with
  | nil =>
      obtain ⟨room, rfl⟩ := Nat.exists_eq_succ_of_ne_zero (Nat.ne_of_gt hroom)
      exact if_pos rfl
  | cons c line ih =>
      obtain ⟨room, rfl⟩ := Nat.exists_eq_succ_of_ne_zero (Nat.ne_zero_of_lt hroom)
      have hc : c ≠ '\n' := fun hc => h (hc ▸ List.mem_cons_self)
      rw [List.cons_append, fgets, if_neg hc,
        ih (fun hmem => h (List.mem_cons_of_mem _ hmem)) (Nat.lt_of_succ_lt_succ hroom)]
      rfl

theorem fgets_full (h : '\n' ∉ line) (hroom : room ≤ line.length) :
    fgets room (line ++ rest) = (line.take room, line.drop room ++ rest) := by
  induction line generalizing room with
  | nil =>
      obtain rfl := Nat.le_zero.mp hroom
      rfl
  | cons c line ih =>
      cases room with
      | zero => rfl
      | succ room =>
          have hc : c ≠ '\n' := fun hc => h (hc ▸ List.mem_cons_self)
          rw [List.cons_append, fgets, if_neg hc,
            ih (fun hmem => h (List.mem_cons_of_mem _ hmem)) (Nat.le_of_succ_le_succ hroom)]
          rfl

theorem beforeLastNewline_concat (line : Str) : beforeLastNewline (line ++ ['\n']) = line := by
  have hmem : (line ++ ['\n']).contains '\n' = true :=
    List.contains_iff_mem.mpr (List.mem_append_right _ List.mem_cons_self)
  rw [beforeLastNewline, if_pos hmem, List.reverse_append]
  show ('\n' :: line.reverse).tail.reverse = line
  exact List.reverse_reverse line

theorem beforeLastNewline_of_notMem (h : '\n' ∉ line) : beforeLastNewline line = line :=
  if_neg fun hmem => h (List.contains_iff_mem.mp hmem)

/-- A line that fits is read whole. -/
theorem readCommand_fits (hline : IsLine line) (hfits : line.length + 1 < userCommandSize) :
    readCommand (line ++ '\n' :: rest) = (line, rest) := by
  have hread : fgets (userCommandSize - 1) (line ++ '\n' :: rest) = (line ++ ['\n'], rest) :=
    fgets_line hline.newline (by omega)
  have hnul : '\x00' ∉ line ++ ['\n'] := by
    intro h
    rcases List.mem_append.mp h with h | h
    · exact hline.nul h
    · exact absurd (List.mem_singleton.mp h) (by decide)
  rw [readCommand, userCommandChar, hread, cString, unpad_pad hnul, beforeLastNewline_concat]

/-- Of one that does not fit, a round takes what it can and leaves the rest. -/
theorem readCommand_long (hline : IsLine line) (hlong : userCommandSize - 1 ≤ line.length) :
    readCommand (line ++ rest) =
      (line.take (userCommandSize - 1), line.drop (userCommandSize - 1) ++ rest) := by
  have hnul : '\x00' ∉ line.take (userCommandSize - 1) := fun h =>
    hline.nul (List.mem_of_mem_take h)
  have hnewline : '\n' ∉ line.take (userCommandSize - 1) := fun h =>
    hline.newline (List.mem_of_mem_take h)
  rw [readCommand, userCommandChar, fgets_full hline.newline hlong, cString, unpad_pad hnul,
    beforeLastNewline_of_notMem hnewline]

/-! ## All rounds -/

theorem length_fgets (input : Str) : ∀ room, (fgets room input).2.length ≤ input.length := by
  induction input with
  | nil =>
      intro room
      cases room with
      | zero => exact Nat.le_refl _
      | succ room => exact Nat.le_refl _
  | cons c rest ih =>
      intro room
      cases room with
      | zero => exact Nat.le_refl _
      | succ room =>
          rw [fgets]
          split
          · exact Nat.le_succ _
          · exact Nat.le_succ_of_le (ih room)

theorem length_readCommand (c : Char) (rest : Str) :
    (readCommand (c :: rest)).2.length ≤ rest.length := by
  show (fgets (98 + 1) (c :: rest)).2.length ≤ rest.length
  rw [fgets]
  split
  · exact Nat.le_refl _
  · exact length_fgets rest 98

/-- As many rounds as there are characters are enough, and more change nothing. -/
theorem commandsFrom_congr (n : Nat) : ∀ (m : Nat) (input : Str), input.length ≤ n →
    input.length ≤ m → commandsFrom n input = commandsFrom m input := by
  induction n with
  | zero =>
      intro m input hn _
      obtain rfl := List.eq_nil_of_length_eq_zero (Nat.le_zero.mp hn)
      cases m with
      | zero => rfl
      | succ m => rfl
  | succ n ih =>
      intro m input hn hm
      cases input with
      | nil =>
          cases m with
          | zero => rfl
          | succ m => rfl
      | cons c rest =>
          cases m with
          | zero => exact absurd hm (Nat.not_succ_le_zero _)
          | succ m =>
              have hrest := length_readCommand c rest
              have hn' := Nat.le_of_succ_le_succ hn
              have hm' := Nat.le_of_succ_le_succ hm
              rw [commandsFrom, commandsFrom,
                ih m _ (Nat.le_trans hrest hn') (Nat.le_trans hrest hm')]

theorem commands_step {input : Str} (h : input ≠ []) :
    commands input = (readCommand input).1 :: commands (readCommand input).2 := by
  cases input with
  | nil => exact absurd rfl h
  | cons c rest =>
      rw [commands, List.length_cons, commandsFrom]
      exact congrArg _ (commandsFrom_congr _ _ _ (length_readCommand c rest) (Nat.le_refl _))

theorem cut_fits (hfits : line.length + 1 < userCommandSize) : cut line = [line] := by
  have hpieces : line.length / (userCommandSize - 1) = 0 := Nat.div_eq_of_lt (by omega)
  have htake : line.take (userCommandSize - 1) = line := List.take_of_length_le (by omega)
  rw [cut, hpieces]
  show [(line.drop (0 * (userCommandSize - 1))).take (userCommandSize - 1)] = [line]
  rw [Nat.zero_mul, List.drop_zero, htake]

theorem cut_long (hlong : userCommandSize - 1 ≤ line.length) :
    cut line = line.take (userCommandSize - 1) :: cut (line.drop (userCommandSize - 1)) := by
  have hpieces : line.length / (userCommandSize - 1) =
      (line.drop (userCommandSize - 1)).length / (userCommandSize - 1) + 1 := by
    rw [List.length_drop]
    exact Nat.div_eq_sub_div (by decide) hlong
  rw [cut, hpieces, List.range_succ_eq_map, List.map_cons, List.map_map, Nat.zero_mul,
    List.drop_zero]
  refine congrArg _ (List.map_congr_left fun i _ => ?_)
  show (line.drop ((i + 1) * (userCommandSize - 1))).take _ = _
  rw [List.drop_drop, Nat.succ_mul, Nat.add_comm]

/-- The commands made of a line are its pieces, whatever comes behind it. -/
theorem commands_line (n : Nat) : ∀ line : Str, line.length ≤ n → IsLine line →
    commands (line ++ '\n' :: rest) = cut line ++ commands rest := by
  induction n using Nat.strong_induction_on with
  | _ n ih =>
      intro line hn hline
      have hne : line ++ '\n' :: rest ≠ [] :=
        List.append_ne_nil_of_right_ne_nil _ (List.cons_ne_nil _ _)
      rw [commands_step hne]
      by_cases hfits : line.length + 1 < userCommandSize
      · rw [readCommand_fits hline hfits, cut_fits hfits]
        rfl
      · have hlong : userCommandSize - 1 ≤ line.length := by omega
        have hshorter : (line.drop (userCommandSize - 1)).length < n := by
          have hsize : userCommandSize = 100 := rfl
          rw [List.length_drop]
          omega
        have hdrop : IsLine (line.drop (userCommandSize - 1)) :=
          ⟨fun h => hline.newline (List.mem_of_mem_drop h),
            fun h => hline.nul (List.mem_of_mem_drop h)⟩
        rw [readCommand_long hline hlong, cut_long hlong,
          ih _ hshorter _ (Nat.le_refl _) hdrop]
        rfl

/-- What the loop makes of a text: the pieces of its lines. -/
theorem commands_lines (hlines : ∀ line ∈ lines, IsLine line) :
    commands (lines.flatMap fun line => line ++ ['\n']) = lines.flatMap cut := by
  induction lines with
  | nil => rfl
  | cons line lines ih =>
      rw [List.flatMap_cons, List.flatMap_cons, List.append_assoc, List.singleton_append,
        commands_line _ line (Nat.le_refl _) (hlines line List.mem_cons_self),
        ih fun l hl => hlines l (List.mem_cons_of_mem _ hl)]

theorem flatMap_cut_fits (hfits : ∀ line ∈ lines, line.length + 1 < userCommandSize) :
    lines.flatMap cut = lines := by
  induction lines with
  | nil => rfl
  | cons line lines ih =>
      rw [List.flatMap_cons, cut_fits (hfits line List.mem_cons_self),
        ih fun l hl => hfits l (List.mem_cons_of_mem _ hl)]
      rfl

theorem length_flatMap_cut (lines : List Str) :
    (lines.flatMap cut).length =
      lines.length + (lines.map fun line => line.length / (userCommandSize - 1)).sum := by
  induction lines with
  | nil => rfl
  | cons line lines ih =>
      rw [List.flatMap_cons, List.length_append, ih, cut, List.length_map, List.length_range,
        List.map_cons, List.sum_cons, List.length_cons]
      omega

/-! ## The commands of a peer -/

/-- How a test with a number is asked for. -/
def TestCommand.word : TestCommand → Str
  | .concurrentTestQuery => "test_query2".toList
  | .testObtain2 => "test_obtain2".toList
  | .testObtain3 => "test_obtain3".toList

/-- The line that asks a peer for a command. -/
def Command.text : Command → Str
  | .query f => "query".toList ++ ' ' :: f.1
  | .obtain f => "obtain".toList ++ ' ' :: f.1
  | .invQuery f => "inv_query".toList ++ ' ' :: f.1
  | .replicate f => "replicate".toList ++ ' ' :: f.1
  | .testQuery => "test_query".toList
  | .testObtain => "test_obtain".toList
  | .concurrent test n => test.word ++ ' ' :: intToString n.1

def Command.userCommand : Command → UserCommand
  | .query f => .sendQuery f.1
  | .obtain f => .obtainFile f.1
  | .invQuery f => .sendInvQuery f.1
  | .replicate f => .replicateFile f.1
  | .testQuery => .sendTestQuery
  | .testObtain => .sendTestObtain
  | .concurrent test n => .concurrent test n.1

theorem interpret_append {word : Str} (h : ' ' ∉ word) (content : Str) :
    interpret (word ++ ' ' :: content) =
      if userCommands.contains word then dispatch word content else .invalidCommand := by
  have htype : commandType (word ++ ' ' :: content) = word := takeWhile_append_sep h content
  rw [interpret, isValidUserCommand, htype, afterFirst_append h]

theorem conTestQueryMaxPeer_intToString {n : Int} (h : IsInt n) :
    conTestQueryMaxPeer (intToString n) = n := by
  rw [conTestQueryMaxPeer, stoi_intToString h]

/-- The whole argument of a line comes through, with the blanks it may have. -/
theorem interpret_text (cmd : Command) : interpret cmd.text = cmd.userCommand := by
  cases cmd with
  | query f => exact interpret_append (by decide) f.1
  | obtain f => exact interpret_append (by decide) f.1
  | invQuery f => exact interpret_append (by decide) f.1
  | replicate f => exact interpret_append (by decide) f.1
  | testQuery => rfl
  | testObtain => rfl
  | concurrent test n =>
      have hnumber := conTestQueryMaxPeer_intToString n.2
      have hblank : ' ' ∉ test.word := by cases test <;> decide
      have hinterpret := interpret_append hblank (intToString n.1)
      cases test with
      | concurrentTestQuery =>
          exact hinterpret.trans (congrArg (UserCommand.concurrent .concurrentTestQuery) hnumber)
      | testObtain2 =>
          exact hinterpret.trans (congrArg (UserCommand.concurrent .testObtain2) hnumber)
      | testObtain3 =>
          exact hinterpret.trans (congrArg (UserCommand.concurrent .testObtain3) hnumber)

/-! ## Lines and commands -/

/-- A text is interpreted line by line just when all its lines fit. -/
theorem one_command_per_line_iff (hlines : ∀ line ∈ lines, IsLine line) :
    commands (lines.flatMap fun line => line ++ ['\n']) = lines ↔
      ∀ line ∈ lines, line.length + 1 < userCommandSize := by
  rw [commands_lines hlines]
  constructor
  · intro heq line hline
    have hlength := length_flatMap_cut lines
    rw [heq] at hlength
    have hsum : (lines.map fun line => line.length / (userCommandSize - 1)).sum = 0 := by omega
    have hzero : line.length / (userCommandSize - 1) = 0 :=
      List.sum_eq_zero_iff.mp hsum _ (List.mem_map_of_mem hline)
    have hlt := (Nat.div_eq_zero_iff_lt (by decide)).mp hzero
    omega
  · exact flatMap_cut_fits

theorem one_command_per_line_iff_two :
    commands (["obtain a".toList, []].flatMap fun line => line ++ ['\n']) =
        ["obtain a".toList, []] ↔
      ∀ line ∈ ["obtain a".toList, []], line.length + 1 < userCommandSize := by
  refine one_command_per_line_iff ?_
  intro line hline
  fin_cases hline <;> exact ⟨by decide, by decide⟩

/-- Asks for a file whose name has 97 characters. -/
def longLine : Str := "obtain ".toList ++ (List.replicate 92 'f' ++ "clear".toList)

/-- The peer obtains a file with another name, and clears its screen. -/
theorem line_becomes_two_commands :
    (∀ line ∈ [longLine], IsLine line) ∧
      commands ([longLine].flatMap fun line => line ++ ['\n']) ≠ [longLine] ∧
      (commands ([longLine].flatMap fun line => line ++ ['\n'])).map interpret =
        [.obtainFile (List.replicate 92 'f'), .clear] := by
  have hline : ∀ line ∈ [longLine], IsLine line := by
    intro line hline
    rw [List.mem_singleton.mp hline]
    exact ⟨by decide, by decide⟩
  have hcut : commands ([longLine].flatMap fun line => line ++ ['\n']) =
      ["obtain ".toList ++ List.replicate 92 'f', "clear".toList] := commands_lines hline
  rw [hcut]
  exact ⟨hline, by decide, rfl⟩

end P2PFileSharing
