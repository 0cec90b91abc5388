import P2PFileSharing.Model.Lines
import P2PFileSharing.Model.Wire

/-!
# The command loop of `CPeerClient::Run`

A round zeroes an array of 100 characters, has `fgets` fill it, and takes the C string in it,
up to its last newline, for the command. What `fgets` left behind is read in the next round.
When there is no input left `fgets` fails at once, and the loop goes on with empty commands,
which are not valid; the rounds counted here are those that read something.
-/

namespace P2PFileSharing

/-! ## Reading -/

/-- `sizeof(user_command_char)`. -/
def userCommandSize : Nat := 100

/-- `fgets` with so much room besides the NUL: what it stores and what it leaves. -/
def fgets : Nat → Str → Str × Str
  | 0, input => ([], input)
  | _ + 1, [] => ([], [])
  | room + 1, c :: rest =>
      if c = '\n' then ([c], rest) else (c :: (fgets room rest).1, (fgets room rest).2)

/-- `s.substr(0, s.find_last_of("\n"))`: where there is no newline, that is all of `s`. -/
def beforeLastNewline (s : Str) : Str :=
  if s.contains '\n' then (s.reverse.dropWhile fun c => c ≠ '\n').tail.reverse else s

/-- `user_command_char` after `fgets`. -/
def userCommandChar (input : Str) : Str :=
  pad userCommandSize '\x00' (fgets (userCommandSize - 1) input).1

/-- What a round takes for the command, and the input that is left. -/
def readCommand (input : Str) : Str × Str :=
  (beforeLastNewline (cString (userCommandChar input)), (fgets (userCommandSize - 1) input).2)

def commandsFrom : Nat → Str → List Str
  | 0, _ => []
  | _ + 1, [] => []
  | rounds + 1, c :: rest =>
      (readCommand (c :: rest)).1 :: commandsFrom rounds (readCommand (c :: rest)).2

/-- The commands that `Run` interprets, one a round; a round reads a character at least. -/
def commands (input : Str) : List Str := commandsFrom input.length input

/-! ## Interpreting -/

/-- The commands that `IsValidUserCommand` compares with. -/
def userCommands : List Str :=
  ["help".toList, "query".toList, "obtain".toList, "inv_query".toList, "replicate".toList,
    "test_query".toList, "test_query2".toList, "test_obtain".toList, "test_obtain2".toList,
    "test_obtain3".toList, "clear".toList]

def commandType (userCommand : Str) : Str := userCommand.takeWhile fun c => c ≠ ' '

/-- `IsValidUserCommand`. -/
def isValidUserCommand (command : Str) : Bool := userCommands.contains (commandType command)

/-- What `Run` does with a command. -/
inductive UserCommand
  | printHelp
  | sendQuery (filename : Str)
  | obtainFile (filename : Str)
  | sendInvQuery (filename : Str)
  | replicateFile (filename : Str)
  | sendTestQuery
  | sendTestObtain
  | concurrent (test : TestCommand) (conTestQueryMaxPeer : Int)
  | clear
  | invalidCommand
  deriving DecidableEq, Repr

/-- `std::stoi(content)`, or 9 when it throws. -/
def conTestQueryMaxPeer (content : Str) : Int :=
  match stoi content with
  | .ok n => n
  | .error _ => 9

/-- The branches of the loop. -/
def dispatch (commandType content : Str) : UserCommand :=
  if commandType = "help".toList then .printHelp
  else if commandType = "query".toList then .sendQuery content
  else if commandType = "obtain".toList then .obtainFile content
  else if commandType = "inv_query".toList then .sendInvQuery content
  else if commandType = "replicate".toList then .replicateFile content
  else if commandType = "test_query".toList then .sendTestQuery
  else if commandType = "test_query2".toList then
    .concurrent .concurrentTestQuery (conTestQueryMaxPeer content)
  else if commandType = "test_obtain".toList then .sendTestObtain
  else if commandType = "test_obtain2".toList then
    .concurrent .testObtain2 (conTestQueryMaxPeer content)
  else if commandType = "test_obtain3".toList then
    .concurrent .testObtain3 (conTestQueryMaxPeer content)
  else if commandType = "clear".toList then .clear
  else .invalidCommand

/-- The body of the loop once a command is read. -/
def interpret (userCommand : Str) : UserCommand :=
  if isValidUserCommand userCommand then
    dispatch (commandType userCommand) (afterFirst ' ' userCommand)
  else .invalidCommand

end P2PFileSharing
