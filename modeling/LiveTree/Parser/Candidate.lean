import LiveTree.Text.Blank

namespace LiveTree.Parser

/-- The last line seen that is not blank, which may turn out to be the result. -/
abbrev Candidate := Option Text

/-- Takes a line. What is no longer or never was the candidate is passed on. -/
def Candidate.push (candidate : Candidate) (line : Text) : Candidate × Option Text :=
  if Text.isBlank line then (candidate, some line) else (some line, candidate)

theorem Candidate.push_blank {line : Text} (candidate : Candidate) (h : Text.isBlank line) :
    candidate.push line = (candidate, some line) := by
  simp [push, h]

theorem Candidate.push_of_not_blank {line : Text} (candidate : Candidate)
    (h : ¬Text.isBlank line) : candidate.push line = (some line, candidate) := by
  simp [push, h]

/-- The candidate after some lines, and the lines passed on meanwhile. -/
def Candidate.pushAll (candidate : Candidate) : List Text → Candidate × List Text
  | [] => (candidate, [])
  | line :: lines =>
    let (candidate, passed) := candidate.push line
    let (candidate, more) := pushAll candidate lines
    (candidate, passed.toList ++ more)

@[simp] theorem Candidate.pushAll_nil (candidate : Candidate) :
    candidate.pushAll [] = (candidate, []) := rfl

theorem Candidate.pushAll_cons (candidate : Candidate) (line : Text) (lines : List Text) :
    candidate.pushAll (line :: lines) =
      (((candidate.push line).1.pushAll lines).1,
        (candidate.push line).2.toList ++ ((candidate.push line).1.pushAll lines).2) := rfl

end LiveTree.Parser
