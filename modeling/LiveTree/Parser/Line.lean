import LiveTree.Text.Blank
import LiveTree.Text.Utf8

namespace LiveTree.Parser

def lineFeed : UInt8 := 0x0A

/-- A line without the carriage returns at its end. -/
def decodeLine (raw : Octets) : Text :=
  trimRight (· == CodePoint.ofChar '\r') (Utf8.decodeLossy raw)

/-- The lines that a chunk completes, and the octets after the last of them. These stay undecoded:
a chunk may end within a character. -/
def splitLines (pending chunk : Octets) : List Text × Octets :=
  let pieces := (pending ++ chunk).splitOn lineFeed
  (pieces.dropLast.map decodeLine, pieces.getLast?.getD [])

/-- The lines of a sequence of chunks, and the octets after the last of them. -/
def feed (pending : Octets) : List Octets → List Text × Octets
  | [] => ([], pending)
  | chunk :: chunks =>
    let (lines, pending) := splitLines pending chunk
    let (more, tail) := feed pending chunks
    (lines ++ more, tail)

@[simp] theorem feed_nil (pending : Octets) : feed pending [] = ([], pending) := rfl

theorem feed_cons (pending chunk : Octets) (chunks : List Octets) :
    feed pending (chunk :: chunks) =
      ((splitLines pending chunk).1 ++ (feed (splitLines pending chunk).2 chunks).1,
        (feed (splitLines pending chunk).2 chunks).2) := rfl

/-- A tail without a line feed is a line too, unless it is empty. -/
def tailLine (tail : Octets) : List Text := if tail.isEmpty then [] else [decodeLine tail]

/-- All lines of an output that has ended. -/
def allLines (chunks : List Octets) : List Text :=
  let (lines, tail) := feed [] chunks
  lines ++ tailLine tail

end LiveTree.Parser
