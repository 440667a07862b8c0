/-! White space: the characters that separate words, and that alone make a name blank. -/

namespace PipelineShell.Text

/-- Tab to carriage return, the four information separators, the space, and the spaces and line
separators of other scripts. -/
def isBlank (c : Char) : Bool :=
  let n := c.toNat
  (9 ≤ n && n ≤ 13) || (28 ≤ n && n ≤ 32) || n == 0x85 || n == 0xA0 || n == 0x1680 ||
    (0x2000 ≤ n && n ≤ 0x200A) || n == 0x2028 || n == 0x2029 || n == 0x202F || n == 0x205F ||
    n == 0x3000

/-- No character of the text can be seen. The empty text is blank too. -/
def blank (s : String) : Bool :=
  s.toList.all isBlank

def trim (s : String) : String :=
  String.ofList ((s.toList.dropWhile isBlank).reverse.dropWhile isBlank).reverse

end PipelineShell.Text
