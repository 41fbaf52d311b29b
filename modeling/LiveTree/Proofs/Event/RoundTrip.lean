import LiveTree.Proofs.Event.Encoding
import LiveTree.Proofs.Text.Base64
import LiveTree.Proofs.Text.Blank

namespace LiveTree.Event

open Base64

theorem not_isBlank_of_isAlphabet {c : CodePoint} (h : isAlphabet c = true) :
    c.isBlank = false := by
  obtain ⟨hlow, hhigh, -⟩ := bounds_of_isAlphabet h
  simp only [CodePoint.isBlank, Bool.or_eq_false_iff, Bool.and_eq_false_iff,
    decide_eq_false_iff_not, beq_eq_false_iff_ne]
  omega

section Payload

variable {left right s : Text} (hleft : left.isBlank = true) (hright : right.isBlank = true)
  (hs : ∀ c ∈ s, isAlphabet c = true)

include hleft hright

theorem strip_padding (hhead : ∀ c ∈ s.head?, c.isBlank = false)
    (hlast : ∀ c ∈ s.getLast?, c.isBlank = false) : Text.strip (left ++ (s ++ right)) = s := by
  have hl : ∀ c ∈ left, c.isBlank = true := List.all_eq_true.mp hleft
  have hr : ∀ c ∈ right, c.isBlank = true := List.all_eq_true.mp hright
  exact trim_padding hl hr hhead hlast

include hs

theorem strip_alphabet : Text.strip (left ++ (s ++ right)) = s := by
  apply strip_padding hleft hright
  · intro c hc
    exact not_isBlank_of_isAlphabet (hs c (List.mem_of_mem_head? hc))
  · intro c hc
    exact not_isBlank_of_isAlphabet (hs c (List.mem_of_mem_getLast? hc))

/-- Encoded text is its own payload: it has no colon, so it does not begin as a frame does. -/
theorem payload_bare : payload (left ++ (s ++ right)) = s := by
  have hnone : dropStart? lead s = none := by
    cases h : dropStart? lead s with
    | none => rfl
    | some rest =>
      have hcolon : CodePoint.ofChar ':' ∈ s := by
        rw [← List.isPrefixOf?_eq_some_iff_append_eq.mp h]
        exact List.mem_append_left _ (by decide)
      exact absurd rfl (bounds_of_isAlphabet (hs _ hcolon)).2.2
  rw [payload, strip_alphabet hleft hright hs, hnone]

theorem payload_frame : payload (left ++ (frame s ++ right)) = s := by
  have hlead : ∀ t : Text, ∀ c ∈ (lead ++ t).head?, c.isBlank = false := by
    intro t c hc
    obtain rfl : CodePoint.ofChar 'd' = c := by simpa [lead, Text.ofString] using hc
    decide
  by_cases hnil : s = []
  · -- Stripping also takes the blank that would stand before an empty payload.
    have hblank : ((" " : Text) ++ ("\n\n" ++ right)).isBlank = true := by
      rw [Text.isBlank, List.all_append, List.all_append, show right.all _ = true from hright]
      decide
    have hlast : ∀ c ∈ lead.getLast?, c.isBlank = false := by
      intro c hc
      obtain rfl : CodePoint.ofChar ':' = c := by simpa [lead, Text.ofString] using hc
      decide
    have hframe : left ++ (frame [] ++ right) =
        left ++ (lead ++ ((" " : Text) ++ ("\n\n" ++ right))) := by
      simp only [frame, List.append_assoc, List.nil_append]
    have hstrip := strip_padding hleft hblank (by simpa using hlead []) hlast
    have hdrop : dropStart? lead lead = some [] := by simp
    rw [hnil, hframe, payload, hstrip, hdrop]
    rfl
  · have hblank : (("\n\n" : Text) ++ right).isBlank = true := by
      rw [Text.isBlank, List.all_append, show right.all _ = true from hright]
      decide
    have hlast : ∀ c ∈ (lead ++ ((" " : Text) ++ s)).getLast?, c.isBlank = false := by
      intro c hc
      rw [← List.append_assoc, List.getLast?_append_of_ne_nil _ hnil] at hc
      exact not_isBlank_of_isAlphabet (hs c (List.mem_of_mem_getLast? hc))
    have hframe : left ++ (frame s ++ right) =
        left ++ ((lead ++ ((" " : Text) ++ s)) ++ ("\n\n" ++ right)) := by
      simp only [frame, List.append_assoc]
    have hstrip := strip_padding hleft hblank (hlead _) hlast
    have hblank' : (" " : Text).isBlank = true := by decide
    have hinner : Text.strip ((" " : Text) ++ s) = s := by
      have h := strip_alphabet hblank' Text.isBlank_nil hs
      rwa [List.append_nil] at h
    rw [hframe, payload, hstrip, dropStart?_append]
    exact hinner

end Payload

theorem ofJson_toJson (type : Text) (data : Json) :
    ofJson (toJson type data) = .ok ⟨.text type, data⟩ := rfl

theorem readable_toJson {data : Json} (type : Text) (h : data.Readable) :
    (toJson type data).Readable := by
  have hkeys : (("type" : Text) :: [("data" : Text)]).Nodup := by decide
  rw [toJson, Json.Readable]
  refine ⟨hkeys, ?_⟩
  simp only [Json.ReadableMembers, Json.Readable, h, and_self]

theorem read_toJson {data : Json} (type : Text) (hdata : data.Readable)
    (hdepth : data.depth < Json.maxNesting) :
    Json.read (toJson type data).write = .ok (toJson type data) := by
  apply Json.read_write (readable_toJson type hdata)
  rw [depth_toJson]
  exact hdepth

/-- An event without surrogates that is not too deep has an encoding, and is decoded from it again,
whether framed or not and with any white space around it. -/
theorem exists_payload {type : Text} {data : Json} (hdepth : data.depth < Json.maxNesting)
    (htexts : ∀ s ∈ type :: data.texts, ∀ c ∈ s, c.isSurrogate = false) (hdata : data.Readable) :
    ∃ payload, encode type data = .ok payload ∧
      ∀ left right : Text, left.isBlank = true → right.isBlank = true →
        ∀ text ∈ [left ++ frame payload ++ right, left ++ payload ++ right],
          decode text = .ok ⟨.text type, data⟩ := by
  obtain ⟨octets, hencode, hoctets⟩ := exists_encode hdepth htexts
  have halphabet : ∀ c ∈ Base64.encode octets, isAlphabet c = true :=
    fun c => isAlphabet_of_mem_encode
  refine ⟨Base64.encode octets, hencode, fun left right hleft hright text htext => ?_⟩
  have hpayload : Event.payload text = Base64.encode octets := by
    simp only [List.mem_cons, List.not_mem_nil, or_false] at htext
    rcases htext with rfl | rfl
    · rw [List.append_assoc]
      exact payload_frame hleft hright halphabet
    · rw [List.append_assoc]
      exact payload_bare hleft hright halphabet
  rw [decode, hpayload, decode_encode]
  simp only [hoctets, read_toJson type hdata hdepth]
  exact ofJson_toJson type data

/-- An encoded event is decoded again, whether framed or not and with any white space around it.
Only data that fills every level of nesting is not encoded: the object around it finds no room. -/
theorem decode_encoded {type : Text} {data : Json}
    (htexts : ∀ s ∈ type :: data.texts, ∀ c ∈ s, c.isSurrogate = false) (hdata : data.Readable) :
    (data.depth < Json.maxNesting → ∃ payload, encode type data = .ok payload ∧
      ∀ left right : Text, left.isBlank = true → right.isBlank = true →
        ∀ text ∈ [left ++ frame payload ++ right, left ++ payload ++ right],
          decode text = .ok ⟨.text type, data⟩) ∧
    (Json.maxNesting ≤ data.depth → encode type data = .error .tooDeep) :=
  ⟨fun hdepth => exists_payload hdepth htexts hdata, encode_eq_tooDeep_iff.mpr⟩

/-- A change of a file: a text beyond ASCII, a quote, and a number of each kind. -/
theorem decode_encoded_fileMod :
    let data : Json := .object [("file", .text "\"é\".x"), ("at", .list [.int (-7), .float 0.5, .null])]
    (∀ s ∈ fileMod :: data.texts, ∀ c ∈ s, c.isSurrogate = false) ∧ data.Readable ∧
      data.depth < Json.maxNesting ∧ Json.maxNesting ≤ (nested 990).depth ∧
      encode reload (nested 990) = .error .tooDeep ∧
      ∃ payload, encode fileMod data = .ok payload ∧
        decode (" \n" ++ frame payload ++ "\t") = .ok ⟨.text fileMod, data⟩ ∧
        decode payload = .ok ⟨.text fileMod, data⟩ := by
  intro data
  have htexts : ∀ s ∈ fileMod :: data.texts, ∀ c ∈ s, c.isSurrogate = false := by
    have hall : ∀ s ∈ fileMod :: data.texts, Json.hasSurrogate s = false := by decide
    exact fun s hs => Json.hasSurrogate_eq_false.mp (hall s hs)
  have hdata : data.Readable := by
    have hkeys : (("file" : Text) :: [("at" : Text)]).Nodup := by decide
    have hint : (Nat.toDigits 10 (-7 : Int).natAbs).length ≤ Numeral.maxDigits := by decide
    simp only [data, Json.Readable, Json.ReadableMembers, Json.ReadableItems, and_true, true_and]
    exact ⟨hkeys, hint⟩
  have hdepth : data.depth < Json.maxNesting := by decide
  have hdeep : Json.maxNesting ≤ (nested 990).depth := (depth_nested 990).ge
  obtain ⟨payload, hencode, hdecode⟩ := (decode_encoded htexts hdata).1 hdepth
  have hbare := hdecode [] [] rfl rfl _ (List.mem_cons_of_mem _ List.mem_cons_self)
  rw [List.nil_append, List.append_nil] at hbare
  exact ⟨htexts, hdata, hdepth, hdeep,
    (decode_encoded (clear_nested reload (by decide) 990) (readable_nested 990)).2 hdeep,
    payload, hencode, hdecode " \n" "\t" (by decide) (by decide) _ List.mem_cons_self, hbare⟩

/-- Lists as deep as a reader goes are read by themselves, and are the data of no event. -/
theorem nested_not_encoded :
    Json.read (nested 990).write = .ok (nested 990) ∧
      (∀ s ∈ fileMod :: (nested 990).texts, ∀ c ∈ s, c.isSurrogate = false) ∧
      ∀ payload, encode fileMod (nested 990) ≠ .ok payload := by
  have hdepth : (nested 990).depth = Json.maxNesting := depth_nested 990
  refine ⟨Json.read_write (readable_nested 990) hdepth.le,
    clear_nested fileMod (by decide) 990, fun payload => ?_⟩
  rw [encode_eq_tooDeep_iff.mpr hdepth.ge]
  exact nofun

end LiveTree.Event
