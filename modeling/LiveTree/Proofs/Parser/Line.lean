import LiveTree.Parser.Line
import LiveTree.Proofs.Text.Cut
import LiveTree.Proofs.Text.LineFeed

namespace LiveTree.Parser

/-- Cutting at line feeds and decoding can be done in either order. -/
theorem splitOn_decodeLossy (octets : Octets) :
    (Utf8.decodeLossy octets).splitOn (CodePoint.ofChar '\n') =
      (octets.splitOn lineFeed).map Utf8.decodeLossy := by
  induction octets using piecewise_induction lineFeed with
  | last s h =>
    rw [List.splitOn_eq_singleton h,
      List.splitOn_eq_singleton (Utf8.lineFeed_notMem_decodeLossy h)]
    rfl
  | piece s t h ih =>
    have hsplit : Utf8.decodeLossy (s ++ lineFeed :: t) =
        Utf8.decodeLossy s ++ CodePoint.ofChar '\n' :: Utf8.decodeLossy t :=
      Utf8.decodeLossy_append_lineFeed s t
    rw [hsplit,
      List.splitOn_append_cons_self_of_not_mem (Utf8.lineFeed_notMem_decodeLossy h),
      List.splitOn_append_cons_self_of_not_mem h, ih, List.map_cons]

theorem splitLines_eq (pending chunk : Octets) :
    splitLines pending chunk =
      (((pending ++ chunk).splitOn lineFeed).dropLast.map decodeLine,
        lastPiece lineFeed (pending ++ chunk)) := rfl

theorem notMem_splitLines (pending chunk : Octets) : lineFeed ∉ (splitLines pending chunk).2 :=
  notMem_lastPiece lineFeed (pending ++ chunk)

/-- What is pending holds no line feed, so it completes no line by itself. -/
theorem splitLines_nil {pending : Octets} (h : lineFeed ∉ pending) :
    splitLines pending [] = ([], pending) := by
  rw [splitLines_eq, List.append_nil, List.splitOn_eq_singleton h, lastPiece_of_notMem h]
  rfl

theorem splitLines_append (pending chunk more : Octets) :
    splitLines pending (chunk ++ more) =
      ((splitLines pending chunk).1 ++ (splitLines (splitLines pending chunk).2 more).1,
        (splitLines (splitLines pending chunk).2 more).2) := by
  simp only [splitLines_eq]
  rw [← List.append_assoc, splitOn_append lineFeed (pending ++ chunk), ← List.map_append,
    lastPiece_append lineFeed (pending ++ chunk),
    List.dropLast_append_of_ne_nil (List.splitOn_ne_nil _ _)]

/-- However octets arrive in chunks, they are split as if they came at once. -/
theorem feed_flatten {pending : Octets} (h : lineFeed ∉ pending) (chunks : List Octets) :
    feed pending chunks = splitLines pending chunks.flatten := by
  induction chunks generalizing pending with
  | nil => rw [feed_nil, List.flatten_nil, splitLines_nil h]
  | cons chunk chunks ih =>
    rw [feed_cons, ih (notMem_splitLines pending chunk), List.flatten_cons, splitLines_append]

/-- The lines of a text: its pieces between line feeds, without carriage returns at their ends. -/
def textLines (text : Text) : List Text :=
  (text.splitOn (CodePoint.ofChar '\n')).map (trimRight (· == CodePoint.ofChar '\r'))

theorem textLines_decodeLossy (octets : Octets) :
    textLines (Utf8.decodeLossy octets) = (octets.splitOn lineFeed).map decodeLine := by
  rw [textLines, splitOn_decodeLossy, List.map_map]
  rfl

/-- Lines do not depend on where chunks end, and splitting commutes with decoding: the complete
lines are those of the whole text but the last, and what stays pending follows the last line
feed. -/
theorem feed_eq_textLines (chunks : List Octets) :
    feed [] chunks =
      ((textLines (Utf8.decodeLossy chunks.flatten)).dropLast,
        (cutLast (· == lineFeed) chunks.flatten).2) := by
  rw [feed_flatten List.not_mem_nil, splitLines_eq, List.nil_append, lastPiece_eq_cutLast,
    textLines_decodeLossy, List.map_dropLast]

/-- A sequence that a line feed breaks counts as often as in the whole: one replacement
character for the first two octets of three. -/
example : (feed [] [[0xE6, 0x9C], [0x0D], [0x0A, 0x41]]).1.map Text.toString = ["\uFFFD"] := by
  decide +kernel

end LiveTree.Parser
