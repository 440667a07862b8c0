/-! Lines, and other parts of texts. A text file may end its lines with a line feed, a carriage
return, or both; it is read with line feeds alone. -/

namespace PipelineShell.Text

/-- Every line end becomes a line feed. The flag says that a carriage return was just read, which
already gave one. -/
def unifyFrom : List Char → Bool → List Char → List Char
  | [], _, done => done.reverse
  | c :: cs, afterReturn, done =>
    if c == '\r' then unifyFrom cs true ('\n' :: done)
    else if c == '\n' && afterReturn then unifyFrom cs false done
    else unifyFrom cs false (c :: done)

def unifyLines (s : String) : String :=
  if s.toList.contains '\r' then String.ofList (unifyFrom s.toList false []) else s

def cutLine (s : String) : String × String :=
  let cs := s.toList
  let line := cs.takeWhile (· != '\n')
  match cs.dropWhile (· != '\n') with
  | [] => (String.ofList line, "")
  | _ :: rest => (String.ofList (line ++ ['\n']), String.ofList rest)

/-- So many characters at the front. -/
def first (n : Nat) (s : String) : String :=
  String.ofList (s.toList.take n)

/-- What comes after so many characters. -/
def past (n : Nat) (s : String) : String :=
  String.ofList (s.toList.drop n)

end PipelineShell.Text
