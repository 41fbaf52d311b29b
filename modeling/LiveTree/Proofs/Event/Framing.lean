import LiveTree.Proofs.Event.RoundTrip
import LiveTree.Web.Feed

namespace LiveTree.Event

open Base64

/-- What ends a block: two line feeds in a row. -/
def blockEnd : Text := "\n\n"

/-- A character in front of a text that is cut. -/
def putFront (c : CodePoint) : List Text × Text → List Text × Text
  | ([], rest) => ([], c :: rest)
  | (block :: blocks, rest) => ((c :: block) :: blocks, rest)

/-- A text cut after every two line feeds in a row, and what is left over. -/
def cutBlocks : Text → List Text × Text
  | [] => ([], [])
  | [c] => ([], [c])
  | c :: d :: s =>
    if [c, d] = blockEnd then ([c, d] :: (cutBlocks s).1, (cutBlocks s).2)
    else putFront c (cutBlocks (d :: s))

/-- A text in which two line feeds in a row stand at the end and nowhere before. -/
def IsBlock (block : Text) : Prop :=
  ∃ body, block = body ++ blockEnd ∧ ¬blockEnd <:+: body ++ "\n"

theorem blockEnd_eq : blockEnd = [CodePoint.ofChar '\n', CodePoint.ofChar '\n'] := rfl

theorem cutBlocks_blockEnd (s : Text) :
    cutBlocks (blockEnd ++ s) = (blockEnd :: (cutBlocks s).1, (cutBlocks s).2) := by
  rw [blockEnd_eq, List.cons_append, List.cons_append, List.nil_append, cutBlocks, if_pos]
  rfl

theorem cutBlocks_cons {c : CodePoint} {s : Text} (h : ¬blockEnd <+: c :: s) :
    cutBlocks (c :: s) = putFront c (cutBlocks s) := by
  cases s with
  | nil => rfl
  | cons d s =>
    have hne : [c, d] ≠ blockEnd := fun heq => h (heq ▸ List.prefix_append [c, d] s)
    rw [cutBlocks, if_neg hne]

theorem cutBlocks_append {block : Text} (h : IsBlock block) (s : Text) :
    cutBlocks (block ++ s) = (block :: (cutBlocks s).1, (cutBlocks s).2) := by
  obtain ⟨body, rfl, hbody⟩ := h
  induction body with
  | nil => exact cutBlocks_blockEnd s
  | cons c body ih =>
    have hrest : ¬blockEnd <:+: body ++ "\n" := fun hwithin =>
      hbody (hwithin.trans (List.suffix_cons c _).isInfix)
    have hfront : ¬blockEnd <+: c :: (body ++ blockEnd ++ s) := by
      intro hstart
      have hlong : c :: (body ++ "\n") <+: c :: (body ++ blockEnd ++ s) := by
        refine ⟨"\n" ++ s, ?_⟩
        simp [blockEnd_eq, Text.ofString]
      have hlength : blockEnd.length ≤ (c :: (body ++ "\n")).length := by
        simp [blockEnd_eq]
      exact hbody (List.prefix_of_prefix_length_le hstart hlong hlength).isInfix
    rw [List.cons_append, List.cons_append, cutBlocks_cons hfront, ih hrest]
    rfl

theorem cutBlocks_of_not_infix {s : Text} (h : ¬blockEnd <:+: s) : cutBlocks s = ([], s) := by
  induction s with
  | nil => rfl
  | cons c s ih =>
    rw [cutBlocks_cons fun hstart => h hstart.isInfix,
      ih fun hwithin => h (hwithin.trans (List.suffix_cons c s).isInfix)]
    rfl

theorem cutBlocks_flatten {blocks : List Text} {rest : Text} (h : ∀ block ∈ blocks, IsBlock block)
    (hrest : ¬blockEnd <:+: rest) : cutBlocks (blocks.flatten ++ rest) = (blocks, rest) := by
  induction blocks with
  | nil => exact cutBlocks_of_not_infix hrest
  | cons block blocks ih =>
    obtain ⟨hblock, hblocks⟩ := List.forall_mem_cons.mp h
    rw [List.flatten_cons, List.append_assoc, cutBlocks_append hblock, ih hblocks]

theorem IsBlock.cons {c : CodePoint} {block : Text} (h : IsBlock block)
    (hfront : ¬blockEnd <+: c :: block) : IsBlock (c :: block) := by
  obtain ⟨body, rfl, hbody⟩ := h
  refine ⟨c :: body, rfl, fun hwithin => ?_⟩
  rw [List.cons_append, List.infix_cons_iff] at hwithin
  rcases hwithin with hstart | hwithin
  · have hshort : c :: (body ++ "\n") <+: c :: (body ++ blockEnd) :=
      ⟨"\n", by simp [blockEnd_eq, Text.ofString]⟩
    exact hfront (hstart.trans hshort)
  · exact hbody hwithin

/-- Cutting loses nothing, every piece but what is left over is a block, and no block is in that. -/
theorem cutBlocks_sound (s : Text) :
    (cutBlocks s).1.flatten ++ (cutBlocks s).2 = s ∧ (∀ block ∈ (cutBlocks s).1, IsBlock block) ∧
      ¬blockEnd <:+: (cutBlocks s).2 := by
  fun_induction cutBlocks s with
  | case1 => exact ⟨rfl, fun _ h => absurd h List.not_mem_nil, by decide⟩
  | case2 c =>
    refine ⟨rfl, fun _ h => absurd h List.not_mem_nil, fun hwithin => ?_⟩
    exact absurd hwithin.length_le (by simp [blockEnd_eq])
  | case3 c d s h ih =>
    obtain ⟨hflatten, hblocks, hrest⟩ := ih
    refine ⟨?_, List.forall_mem_cons.mpr ⟨⟨[], h, by decide⟩, hblocks⟩, hrest⟩
    rw [List.flatten_cons, List.append_assoc, hflatten]
    rfl
  | case4 c d s h ih =>
    have hfront {t : Text} (ht : t <+: d :: s) : ¬blockEnd <+: c :: t := by
      intro hstart
      have hlong : blockEnd <+: c :: d :: s := hstart.trans (List.cons_prefix_cons.mpr ⟨rfl, ht⟩)
      have htwo : [c, d] <+: c :: d :: s := ⟨s, rfl⟩
      have hboth := List.prefix_of_prefix_length_le hlong htwo (by simp [blockEnd_eq])
      exact h (hboth.eq_of_length (by simp [blockEnd_eq])).symm
    obtain ⟨hflatten, hblocks, hrest⟩ := ih
    cases hcut : cutBlocks (d :: s) with
    | mk blocks rest =>
      rw [hcut] at hflatten hblocks hrest
      cases blocks with
      | nil =>
        refine ⟨congrArg (c :: ·) hflatten, fun _ h => absurd h List.not_mem_nil, fun hwithin => ?_⟩
        rcases List.infix_cons_iff.mp hwithin with hstart | hwithin
        · exact hfront ⟨[], by simpa using hflatten⟩ hstart
        · exact hrest hwithin
      | cons block blocks =>
        obtain ⟨hblock, hblocks⟩ := List.forall_mem_cons.mp hblocks
        have hstart : block <+: d :: s := ⟨blocks.flatten ++ rest, by simpa using hflatten⟩
        exact ⟨congrArg (c :: ·) hflatten,
          List.forall_mem_cons.mpr ⟨hblock.cons (hfront hstart), hblocks⟩, hrest⟩

/-- There is one way only to cut a text. -/
theorem cutBlocks_eq_iff {s rest : Text} {blocks : List Text} :
    cutBlocks s = (blocks, rest) ↔
      blocks.flatten ++ rest = s ∧ (∀ block ∈ blocks, IsBlock block) ∧ ¬blockEnd <:+: rest := by
  constructor
  · intro h
    have hsound := cutBlocks_sound s
    rwa [h] at hsound
  · rintro ⟨rfl, hblocks, hrest⟩
    exact cutBlocks_flatten hblocks hrest

/-- A line that ends a block is all of it. -/
theorem isBlock_line (line : Text) (h : CodePoint.ofChar '\n' ∉ line) :
    IsBlock (line ++ blockEnd) := by
  refine ⟨line, rfl, fun hwithin => ?_⟩
  have hcount := hwithin.sublist.count_le (CodePoint.ofChar '\n')
  have hone : ("\n" : Text).count (CodePoint.ofChar '\n') = 1 := by decide
  have htwo : blockEnd.count (CodePoint.ofChar '\n') = 2 := by decide
  rw [List.count_append, List.count_eq_zero.mpr h, hone, htwo] at hcount
  omega

/-- What a payload is made of. -/
theorem payload_of_encode? {type payload : Text} {data : Json}
    (h : encode? type data = some payload) :
    payload ≠ [] ∧ ∀ c ∈ payload, isAlphabet c = true := by
  obtain ⟨octets, hoctets, rfl⟩ := exists_octets (encode?_eq_some_iff.mp h)
  refine ⟨fun hnil => ?_, fun c => isAlphabet_of_mem_encode⟩
  have hempty : octets = [] := Base64.encode_eq_nil.mp hnil
  have hdocument : (toJson type data).write = [] := Utf8.eq_nil_of_encode? (hempty ▸ hoctets)
  cases hdocument

/-- Nothing in an event's line could end it. -/
theorem line_frame {type payload : Text} {data : Json} (h : encode? type data = some payload) :
    frame payload = "data: " ++ payload ++ blockEnd ∧
      CodePoint.ofChar '\n' ∉ "data: " ++ payload ∧
      CodePoint.ofChar '\r' ∉ "data: " ++ payload := by
  have hpayload {c : CodePoint} (hc : c.val < 0x2B) : c ∉ payload := fun hmem =>
    absurd (bounds_of_isAlphabet ((payload_of_encode? h).2 c hmem)).1 (Nat.not_le.mpr hc)
  refine ⟨rfl, ?_, ?_⟩
  · rw [List.mem_append, not_or]
    exact ⟨by decide, hpayload (by decide)⟩
  · rw [List.mem_append, not_or]
    exact ⟨by decide, hpayload (by decide)⟩

/-- The texts that a feed is made of. -/
inductive FeedText : Text → Prop
  | connected : FeedText Web.connectedText
  | keepAlive : FeedText keepAliveText
  | event {type payload : Text} {data : Json} (h : encode? type data = some payload) :
      FeedText (frame payload)

theorem FeedText.isBlock {item : Text} (h : FeedText item) : IsBlock item := by
  cases h with
  | connected => exact isBlock_line ": connected" (by decide)
  | keepAlive => exact isBlock_line ": keep-alive" (by decide)
  | event h =>
    obtain ⟨hframe, hline, -⟩ := line_frame h
    rw [hframe]
    exact isBlock_line _ hline

/-- A feed is cut into just the texts that it was made of, and an event in it is one line, whatever
its type and its data hold. -/
theorem cutBlocks_feed {items : List Text} (h : ∀ item ∈ items, FeedText item) :
    cutBlocks items.flatten = (items, []) ∧
      ∀ type data payload, encode? type data = some payload →
        frame payload = "data: " ++ payload ++ "\n\n" ∧ payload ≠ [] ∧
          (∀ c ∈ payload, isAlphabet c = true) ∧
          CodePoint.ofChar '\n' ∉ "data: " ++ payload ∧
          CodePoint.ofChar '\r' ∉ "data: " ++ payload := by
  constructor
  · rw [cutBlocks_eq_iff]
    exact ⟨List.append_nil _, fun item hitem => (h item hitem).isBlock, by decide⟩
  · intro type data payload hencode
    obtain ⟨hne, halphabet⟩ := payload_of_encode? hencode
    obtain ⟨hframe, hline⟩ := line_frame hencode
    exact ⟨hframe, hne, halphabet, hline⟩

/-- An event that holds the end of a block, the lead of a frame and a whole comment, told twice. -/
theorem cutBlocks_feed_blockEnd :
    let type : Text := "\n\ndata: x\r\n"
    let data : Json := .object [(":\n\n", .list [.text Web.connectedText, .null])]
    ∃ payload, encode? type data = some payload ∧
      let items := [Web.connectedText, frame payload, keepAliveText, keepAliveText, frame payload]
      (∀ item ∈ items, FeedText item) ∧ cutBlocks items.flatten = (items, []) ∧
        payload ≠ [] ∧ CodePoint.ofChar '\n' ∉ "data: " ++ payload := by
  intro type data
  have htexts : ∀ s ∈ type :: data.texts, ∀ c ∈ s, c.isSurrogate = false := by
    have hall : ∀ s ∈ type :: data.texts, Json.hasSurrogate s = false := by decide +kernel
    exact fun s hs => Json.hasSurrogate_eq_false.mp (hall s hs)
  have hdepth : data.depth < Json.maxNesting := by decide
  obtain ⟨octets, hoctets, -⟩ := exists_encode hdepth htexts
  obtain ⟨payload, hencode⟩ : ∃ payload, encode? type data = some payload :=
    ⟨_, encode?_eq_some_iff.mpr hoctets⟩
  have hitems : ∀ item ∈ [Web.connectedText, frame payload, keepAliveText, keepAliveText,
      frame payload], FeedText item := by
    simp only [List.forall_mem_cons, List.not_mem_nil, false_implies, implies_true, and_true]
    exact ⟨.connected, .event hencode, .keepAlive, .keepAlive, .event hencode⟩
  obtain ⟨hcut, hlines⟩ := cutBlocks_feed hitems
  obtain ⟨-, hne, -, hline, -⟩ := hlines type data payload hencode
  exact ⟨payload, hencode, hitems, hcut, hne, hline⟩

end LiveTree.Event
