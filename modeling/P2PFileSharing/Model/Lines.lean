import P2PFileSharing.Model.Defines

/-!
# Reading and cutting lines

What the readers of text have in common, and what is left of `defines.cpp`: the digit test and
the function that cuts the lines of a text into messages of a bounded size, each under the same
command.
-/

namespace P2PFileSharing

/-- `while (std::getline(...))` from a position on: `line` is what was read of the line so far.
Nothing behind the last newline is no line. -/
def getlinesFrom : Str → Str → List Str
  | [], line => if line = [] then [] else [line]
  | c :: rest, line =>
      if c = '\n' then line :: getlinesFrom rest [] else getlinesFrom rest (line ++ [c])

/-- The lines that `std::getline` reads until it fails. -/
def getlines (text : Str) : List Str := getlinesFrom text []

/-- `s.substr(s.find_first_of(c) + 1)`: where there is no `c`, that is all of `s`. -/
def afterFirst (c : Char) (s : Str) : Str :=
  if s.contains c then (s.dropWhile fun x => x ≠ c).tail else s

/-- `IsNumber`. -/
def isNumber (s : Str) : Bool := !s.isEmpty && s.all Char.isDigit

/-- What `SplitCommandStringBySize` throws. -/
def lineTooBig : Str := "Line size is too big".toList

/-- The loop of `SplitCommandStringBySize`, with what it has put out and the string it is at. -/
def splitCommandLoop (command : Str) (maxSize : Nat) :
    List Str → List Str → Str → Except Str (List Str)
  | [], outputStrings, currentString =>
      .ok (if currentString = [] then outputStrings else outputStrings ++ [currentString])
  | line :: rest, outputStrings, currentString =>
      if line.length > maxSize then .error lineTooBig
      else if currentString.length + line.length + 2 > maxSize then
        splitCommandLoop command maxSize rest (outputStrings ++ [currentString])
          (command ++ ['\n'] ++ (line ++ ['\n']))
      else splitCommandLoop command maxSize rest outputStrings (currentString ++ (line ++ ['\n']))

/-- `SplitCommandStringBySize`. -/
def splitCommandStringBySize (inputString command : Str) (maxSize : Nat) :
    Except Str (List Str) :=
  splitCommandLoop command maxSize (getlines inputString) [] (command ++ ['\n'])

end P2PFileSharing
