import LiveTree.Text.Digit

namespace LiveTree.Json

/-- A code point inside a quoted text: quotes, backslashes and control characters are escaped, and
all else stands for itself. -/
def escapePoint (c : CodePoint) : Text :=
  if c == '"' then "\\\""
  else if c == '\\' then "\\\\"
  else if c == '\n' then "\\n"
  else if c == '\r' then "\\r"
  else if c == '\t' then "\\t"
  else if c.val == 0x0C then "\\f"
  else if c.val == 0x08 then "\\b"
  else if c.val < 0x20 then "\\u" ++ Text.hex 4 c.val
  else [c]

def escape (s : Text) : Text := s.flatMap escapePoint

@[simp] theorem escape_nil : escape [] = [] := rfl

@[simp] theorem escape_cons (c : CodePoint) (s : Text) :
    escape (c :: s) = escapePoint c ++ escape s := rfl

def quote (s : Text) : Text := "\"" ++ escape s ++ "\""

end LiveTree.Json
