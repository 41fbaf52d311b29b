import LiveTree.Event.Codec
import LiveTree.Event.Pool
import LiveTree.Proofs.Json.RoundTrip
import LiveTree.Proofs.Json.Texts
import LiveTree.Proofs.Text.Utf8

namespace LiveTree.Event

theorem depth_toJson (type : Text) (data : Json) : (toJson type data).depth = data.depth + 1 := by
  simp [toJson, Json.depth, Json.depthMembers]

/-- The surrogates in the text of an event are those of its type and its data. -/
theorem hasSurrogate_write_toJson (type : Text) (data : Json) :
    Json.hasSurrogate (toJson type data).write = (type :: data.texts).any Json.hasSurrogate := by
  have htype : Json.hasSurrogate "type" = false := by decide
  have hdata : Json.hasSurrogate "data" = false := by decide
  rw [toJson, Json.hasSurrogate_write]
  simp [Json.texts, Json.textsOfMembers, htype, hdata]

theorem encode_of_shallow {type : Text} {data : Json} (h : data.depth < Json.maxNesting) :
    encode type data = match Utf8.encode? (toJson type data).write with
      | none => .error .surrogate
      | some octets => .ok (Base64.encode octets) := by
  have hdepth : (toJson type data).depth ≤ Json.maxNesting := by
    rw [depth_toJson]
    exact h
  have hwrite : (toJson type data).write? = some (toJson type data).write := if_pos hdepth
  cases hoctets : Utf8.encode? (toJson type data).write with
  | none => simp only [encode, hwrite, hoctets]
  | some octets => simp only [encode, hwrite, hoctets]

/-- The object around the data of an event takes one level of those a writer has. -/
theorem encode_eq_tooDeep_iff {type : Text} {data : Json} :
    encode type data = .error .tooDeep ↔ Json.maxNesting ≤ data.depth := by
  rcases Nat.lt_or_ge data.depth Json.maxNesting with hdepth | hdepth
  · rw [encode_of_shallow hdepth]
    refine iff_of_false ?_ (Nat.not_le_of_lt hdepth)
    cases Utf8.encode? (toJson type data).write <;> simp
  · have hwrite : (toJson type data).write? = none := by
      rw [Json.write?, depth_toJson, if_neg (by omega)]
    simp only [encode, hwrite, hdepth]

/-- An event without surrogates that is not too deep has an encoding, in which its text is found
again. -/
theorem exists_encode {type : Text} {data : Json} (hdepth : data.depth < Json.maxNesting)
    (htexts : ∀ s ∈ type :: data.texts, ∀ c ∈ s, c.isSurrogate = false) :
    ∃ octets, encode type data = .ok (Base64.encode octets) ∧
      Utf8.decode octets = .ok (toJson type data).write := by
  have hplain : (toJson type data).write.any CodePoint.isSurrogate = false := by
    rw [← Json.hasSurrogate, hasSurrogate_write_toJson]
    exact Json.any_hasSurrogate_eq_false.mpr htexts
  obtain ⟨octets, hencode, hdecode⟩ := Utf8.exists_encode? hplain
  exact ⟨octets, by rw [encode_of_shallow hdepth, hencode], hdecode⟩

theorem exists_octets {type payload : Text} {data : Json} (h : encode type data = .ok payload) :
    ∃ octets, Utf8.encode? (toJson type data).write = some octets ∧
      Base64.encode octets = payload := by
  rcases Nat.lt_or_ge data.depth Json.maxNesting with hdepth | hdepth
  · rw [encode_of_shallow hdepth] at h
    cases hencode : Utf8.encode? (toJson type data).write with
    | none =>
      rw [hencode] at h
      cases h
    | some octets =>
      rw [hencode] at h
      exact ⟨octets, rfl, Except.ok.inj h⟩
  · cases (encode_eq_tooDeep_iff.mpr hdepth).symm.trans h

theorem encode_of_garbled {type : Text} {data : Json} (hdepth : data.depth < Json.maxNesting)
    (garbled : ∃ s ∈ type :: data.texts, ∃ c ∈ s, c.isSurrogate = true) :
    encode type data = .error .surrogate := by
  have hsurrogate : Json.hasSurrogate (toJson type data).write = true := by
    rw [hasSurrogate_write_toJson]
    simpa only [List.any_eq_true, Json.hasSurrogate] using garbled
  have hnone : Utf8.encode? (toJson type data).write = none :=
    Utf8.encode?_eq_none_iff.mpr (List.any_eq_true.mp hsurrogate)
  rw [encode_of_shallow hdepth, hnone]

/-- A text with a surrogate in it is in no event. -/
theorem encode_text_of_hasSurrogate (type : Text) {s : Text} (h : Json.hasSurrogate s = true) :
    encode type (.text s) = .error .surrogate := by
  have hmem : s ∈ type :: (Json.text s).texts := List.mem_cons_of_mem _ (List.mem_singleton_self s)
  exact encode_of_garbled (by simp [Json.depth, Json.maxNesting])
    ⟨s, hmem, List.any_eq_true.mp h⟩

/-- Lists in one another, the innermost of them empty. -/
def nested : Nat → Json
  | 0 => .list []
  | n + 1 => .list [nested n]

theorem depth_nested (n : Nat) : (nested n).depth = n + 1 := by
  induction n with
  | zero => rfl
  | succ n ih => simp [nested, Json.depth, Json.depthItems, ih]

theorem texts_nested (n : Nat) : (nested n).texts = [] := by
  induction n with
  | zero => rfl
  | succ n ih => simp [nested, Json.texts, Json.textsOfItems, ih]

theorem readable_nested (n : Nat) : (nested n).Readable := by
  induction n with
  | zero => simp [nested, Json.Readable, Json.ReadableItems]
  | succ n ih => simp [nested, Json.Readable, Json.ReadableItems, ih]

theorem clear_nested (type : Text) (h : Json.hasSurrogate type = false) (n : Nat) :
    ∀ s ∈ type :: (nested n).texts, ∀ c ∈ s, c.isSurrogate = false := by
  rw [texts_nested]
  intro s hs
  rw [List.mem_singleton.mp hs]
  exact Json.hasSurrogate_eq_false.mp h

/-- An event can be sent exactly if its data leaves a writer a level of nesting for the object
around it, and there is no surrogate in its type, nor in a text or a key anywhere in its data. A
broadcast of one that cannot be sent is a fault before anything is written: whatever its streams are
and in whatever order they would be tried, the channel and the world stay as they are, closed
connections among them. -/
theorem sendable_iff_clear (type : Text) (data : Json) :
    ((∃ payload, encode type data = .ok payload) ↔ data.depth < Json.maxNesting ∧
        ∀ s ∈ type :: data.texts, ∀ c ∈ s, c.isSurrogate = false) ∧
      (encode type data = .error .tooDeep ↔ Json.maxNesting ≤ data.depth) ∧
      ∀ fault, encode type data = .error fault →
        ∀ {σ : Type} (streams : Streams σ) (c : Channel σ),
          c.broadcast streams type data = (.error (.ofEncode fault), c) ∧
            ∀ order, c.broadcastIn streams order type data = (.error (.ofEncode fault), c) := by
  refine ⟨⟨fun ⟨payload, hencode⟩ => ?_, fun ⟨hdepth, hclear⟩ => ?_⟩, encode_eq_tooDeep_iff,
    fun fault hfault σ streams c =>
      ⟨c.broadcast_of_error streams hfault, c.broadcastIn_of_error streams hfault⟩⟩
  · have hdepth : data.depth < Json.maxNesting := by
      by_contra hdeep
      cases hencode.symm.trans (encode_eq_tooDeep_iff.mpr (Nat.le_of_not_lt hdeep))
    refine ⟨hdepth, ?_⟩
    by_contra hgarbled
    simp only [not_forall, Bool.not_eq_false] at hgarbled
    obtain ⟨s, hs, c, hc, hsurrogate⟩ := hgarbled
    cases hencode.symm.trans (encode_of_garbled hdepth ⟨s, hs, c, hc, hsurrogate⟩)
  · obtain ⟨octets, hencode, -⟩ := exists_encode hdepth hclear
    exact ⟨_, hencode⟩

/-- A surrogate in a key of a list's object, and a channel with a connection that is closed. -/
theorem sendable_iff_clear_key :
    let data : Json := .list [.text "é", .object [([.ofNat 0xDCFF], .null)]]
    let pool : Pool := { streams := #[.plain { closed := true }, .plain {}], wires := #[0, 1] }
    let c : Channel Pool := { live := [0, 1], world := pool }
    (∃ payload, encode reload (.list [.text "é"]) = .ok payload) ∧
      encode reload data = .error .surrogate ∧
      c.broadcast Pool.asStreams reload data = (.error .unencodable, c) := by
  intro data pool c
  have hclear : ∀ s ∈ reload :: (Json.list [.text "é"]).texts, ∀ c ∈ s, c.isSurrogate = false :=
    Json.any_hasSurrogate_eq_false.mp (by decide)
  have hencode : encode reload data = .error .surrogate :=
    encode_of_garbled (by decide) ⟨[.ofNat 0xDCFF], by decide, .ofNat 0xDCFF,
      List.mem_singleton_self _, by decide⟩
  exact ⟨(sendable_iff_clear reload (.list [.text "é"])).1.mpr ⟨by decide, hclear⟩, hencode,
    ((sendable_iff_clear reload data).2.2 _ hencode Pool.asStreams c).1⟩

/-- Lists as deep as a reader goes are not sent, though no surrogate is in them, and neither of two
open connections is written to. -/
theorem nested_not_sent :
    let c : Channel Pool :=
      { live := [0, 1], world := { streams := #[.plain {}, .plain {}], wires := #[0, 1] } }
    Json.read (nested 990).write = .ok (nested 990) ∧
      (∀ s ∈ reload :: (nested 990).texts, ∀ c ∈ s, c.isSurrogate = false) ∧
      (¬∃ payload, encode reload (nested 990) = .ok payload) ∧
      c.broadcast Pool.asStreams reload (nested 990) = (.error .tooDeep, c) := by
  intro c
  have hdepth : (nested 990).depth = Json.maxNesting := depth_nested 990
  have hencode : encode reload (nested 990) = .error .tooDeep :=
    encode_eq_tooDeep_iff.mpr hdepth.ge
  refine ⟨Json.read_write (readable_nested 990) hdepth.le, clear_nested reload (by decide) 990, ?_,
    c.broadcast_of_error Pool.asStreams hencode⟩
  rw [hencode]
  exact nofun

end LiveTree.Event
