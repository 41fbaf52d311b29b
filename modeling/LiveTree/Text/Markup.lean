import LiveTree.Text.Basic

namespace LiveTree.Markup

/-- A code point as it is written in element content and in quoted attributes. -/
def escapePoint (c : CodePoint) : Text :=
  if c == '&' then "&amp;"
  else if c == '<' then "&lt;"
  else if c == '>' then "&gt;"
  else if c == '"' then "&quot;"
  else if c == '\'' then "&#x27;"
  else [c]

def escape (s : Text) : Text := s.flatMap escapePoint

@[simp] theorem escape_nil : escape [] = [] := rfl

@[simp] theorem escape_cons (c : CodePoint) (s : Text) :
    escape (c :: s) = escapePoint c ++ escape s := rfl

end LiveTree.Markup
