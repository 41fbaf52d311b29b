import LiveTree.Proofs.Text.Markup
import LiveTree.Proofs.Text.Surrogate
import LiveTree.Web.Asset

namespace LiveTree.Web

namespace Page

/-- A body element in a text, between two parts of it, that holds nothing but white space. -/
def Slot (s before after : Text) : Prop :=
  ∃ blank, Text.isBlank blank = true ∧ s = before ++ ("<body>" ++ blank ++ "</body>" ++ after)

/-- The slot that no other one begins before. -/
structure FirstSlot (s before after : Text) : Prop where
  slot : Slot s before after
  first : ∀ before' after', Slot s before' after' → before.length ≤ before'.length

theorem afterSlot?_eq_some_iff {s after : Text} : afterSlot? s = some after ↔ Slot s [] after := by
  constructor
  · intro h
    rw [afterSlot?] at h
    split at h
    · cases h
    · rename_i rest hrest
      have hend := List.isPrefixOf?_eq_some_iff_append_eq.mp h
      refine ⟨rest.takeWhile CodePoint.isBlank, ?_, ?_⟩
      · exact List.all_eq_true.mpr fun c hc => List.mem_takeWhile_imp hc
      · rw [List.nil_append, List.append_assoc, List.append_assoc, hend,
          List.takeWhile_append_dropWhile]
        exact (List.isPrefixOf?_eq_some_iff_append_eq.mp hrest).symm
  · rintro ⟨blank, hblank, rfl⟩
    have hrest : (blank ++ (Text.ofString "</body>" ++ after)).dropWhile CodePoint.isBlank =
        Text.ofString "</body>" ++ after :=
      dropWhile_append_of_head (List.all_eq_true.mp hblank) fun c hc => by
        obtain rfl := Option.some.inj hc
        decide
    simp only [List.nil_append, List.append_assoc, afterSlot?, dropStart?_append, hrest]

theorem slot_cons_iff {c : CodePoint} {s before after : Text} :
    Slot (c :: s) before after ↔
      before = [] ∧ Slot (c :: s) [] after ∨ ∃ rest, before = c :: rest ∧ Slot s rest after := by
  cases before with
  | nil => simp
  | cons d rest =>
    simp only [Slot, List.cons_append, List.cons.injEq, reduceCtorEq, false_and, false_or]
    constructor
    · rintro ⟨blank, hblank, rfl, hs⟩
      exact ⟨rest, ⟨rfl, rfl⟩, blank, hblank, hs⟩
    · rintro ⟨_, ⟨rfl, rfl⟩, blank, hblank, hs⟩
      exact ⟨blank, hblank, rfl, hs⟩

theorem not_slot_nil (before after : Text) : ¬Slot [] before after := by
  rintro ⟨blank, -, h⟩
  have hlength := congrArg List.length h
  simp only [List.length_nil, List.length_append, Text.length_ofString] at hlength
  have hbody : "<body>".toList.length = 6 := rfl
  omega

theorem not_slot_of_none {s : Text} (h : slot? s = none) (before after : Text) :
    ¬Slot s before after := by
  induction s generalizing before with
  | nil => exact not_slot_nil before after
  | cons c s ih =>
    rw [slot?] at h
    split at h
    · cases h
    · rename_i hnone
      rw [slot_cons_iff]
      rintro (⟨-, hslot⟩ | ⟨rest, -, hslot⟩)
      · rw [← afterSlot?_eq_some_iff, hnone] at hslot
        cases hslot
      · exact ih (Option.map_eq_none_iff.mp h) rest hslot

theorem firstSlot_of_some {s before after : Text} (h : slot? s = some (before, after)) :
    FirstSlot s before after := by
  induction s generalizing before with
  | nil => cases h
  | cons c s ih =>
    rw [slot?] at h
    split at h
    · rename_i after' hafter
      obtain ⟨rfl, rfl⟩ := Prod.mk.inj (Option.some.inj h)
      exact ⟨afterSlot?_eq_some_iff.mp hafter, fun _ _ _ => Nat.zero_le _⟩
    · rename_i hnone
      obtain ⟨⟨rest, after'⟩, hrest, heq⟩ := Option.map_eq_some_iff.mp h
      obtain ⟨rfl, rfl⟩ := Prod.mk.inj heq
      have hfirst := ih hrest
      refine ⟨slot_cons_iff.mpr (.inr ⟨rest, rfl, hfirst.slot⟩), fun before' after' hother => ?_⟩
      rcases slot_cons_iff.mp hother with ⟨-, hslot⟩ | ⟨rest', rfl, hslot⟩
      · rw [← afterSlot?_eq_some_iff, hnone] at hslot
        cases hslot
      · exact Nat.succ_le_succ (hfirst.first rest' after' hslot)

/-- A template with a message in the place of what is between two parts of it. -/
def shown (before message after : Text) : Text :=
  before ++ ("<body><div>" ++ Markup.escape message ++ "</div></body>" ++ after)

theorem fill_of_some {template before after : Text}
    (h : slot? template = some (before, after)) (message : Text) :
    fill template message = shown before message after := by
  simp only [fill, h, shown, List.append_assoc]

theorem shown_inj {before message other after : Text}
    (h : shown before message after = shown before other after) : message = other := by
  have hescape : Markup.escape message = Markup.escape other :=
    List.append_cancel_left (List.append_cancel_right (List.append_cancel_right
      (List.append_cancel_left h)))
  rw [← Markup.unescape_escape message, hescape, Markup.unescape_escape]

theorem any_isSurrogate_shown {template before after : Text} (h : Slot template before after)
    (htemplate : template.any CodePoint.isSurrogate = false) (message : Text) :
    (shown before message after).any CodePoint.isSurrogate =
      message.any CodePoint.isSurrogate := by
  obtain ⟨blank, -, rfl⟩ := h
  simp only [List.any_append, Bool.or_eq_false_iff] at htemplate
  obtain ⟨hbefore, -, hafter⟩ := htemplate
  have hopen : (Text.ofString "<body><div>").any CodePoint.isSurrogate = false := by decide
  have hclose : (Text.ofString "</div></body>").any CodePoint.isSurrogate = false := by decide
  simp only [shown, List.any_append, Markup.any_isSurrogate_escape, hbefore, hafter, hopen, hclose,
    Bool.false_or, Bool.or_false]

theorem any_isSurrogate_fill {template message : Text}
    (htemplate : template.any CodePoint.isSurrogate = false)
    (hmessage : message.any CodePoint.isSurrogate = false) :
    (fill template message).any CodePoint.isSurrogate = false := by
  cases hslot : slot? template with
  | none => rwa [fill_of_slot?_none hslot]
  | some parts =>
    obtain ⟨before, after⟩ := parts
    have hfirst := firstSlot_of_some hslot
    rw [fill_of_some hslot, any_isSurrogate_shown hfirst.slot htemplate, hmessage]

/-- A page of markup whose body is the octets of a text. -/
structure Shows (page : Page) (markup : Text) : Prop where
  type : page.type = "text/html"
  body : Utf8.encode? markup = some page.body

theorem ofMarkup_eq_ok_iff {status : Nat} {markup : Text} {page : Page} :
    ofMarkup status markup = .ok page ↔ page.status = status ∧ page.Shows markup := by
  cases page with
  | mk pageStatus type body =>
    rw [ofMarkup]
    constructor
    · intro h
      split at h
      · cases h
      · rename_i octets hoctets
        obtain ⟨rfl, rfl, rfl⟩ := (mk.injEq ..).mp (Except.ok.inj h)
        exact ⟨rfl, rfl, hoctets⟩
    · rintro ⟨rfl, rfl, hbody⟩
      rw [hbody]

theorem exists_ofMarkup {markup : Text} (h : markup.any CodePoint.isSurrogate = false)
    (status : Nat) :
    ∃ page, ofMarkup status markup = .ok page ∧ page.status = status ∧ page.Shows markup := by
  obtain ⟨octets, hoctets, -⟩ := Utf8.exists_encode? h
  have hpage : ofMarkup status markup = .ok ⟨status, "text/html", octets⟩ := by
    rw [ofMarkup, hoctets]
  exact ⟨_, hpage, ofMarkup_eq_ok_iff.mp hpage⟩

theorem ofMarkup_of_surrogate {markup : Text} (h : markup.any CodePoint.isSurrogate = true)
    (status : Nat) : ofMarkup status markup = .error .unencodable := by
  simp only [ofMarkup, Utf8.encode?, h, if_true]

theorem Shows.unique {page other : Page} {markup otherMarkup : Text} (h : page.Shows markup)
    (hother : other.Shows otherMarkup) (hbody : page.body = other.body) : markup = otherMarkup := by
  have hdecode := Utf8.decode_of_encode? h.body
  rw [hbody, Utf8.decode_of_encode? hother.body] at hdecode
  exact (Except.ok.inj hdecode).symm

section Template

variable {disk : File.Disk} {root template : Text}

theorem any_isSurrogate_template (h : Page.template disk root = .ok template) :
    template.any CodePoint.isSurrogate = false := by
  rw [Page.template] at h
  split at h
  · obtain rfl := Except.ok.inj h
    decide
  · split at h
    · cases h
    · rename_i text hdecode
      obtain rfl := Except.ok.inj h
      exact Text.any_isSurrogate_normaliseLines (Utf8.any_isSurrogate_decode hdecode)

theorem ofMessage_of_template (h : Page.template disk root = .ok template) (status : Nat)
    (message : Text) :
    ofMessage disk root status message = ofMarkup status (fill template message) := by
  rw [ofMessage, h]

theorem ofMessage_eq_ok_iff (h : Page.template disk root = .ok template) {status : Nat}
    {message : Text} {page : Page} : ofMessage disk root status message = .ok page ↔
      page.status = status ∧ page.Shows (fill template message) := by
  rw [ofMessage_of_template h, ofMarkup_eq_ok_iff]

/-- What is sent instead of a file is a page that shows a message. -/
theorem shows_of_send (h : Page.template disk root = .ok template) {file : Text} {page : Page}
    (hsend : (Asset.send disk root file).1 = .ok page) (hstatus : page.status ≠ 200) :
    ∃ message, page.Shows (fill template message) := by
  rw [Asset.send] at hsend
  split at hsend
  · obtain rfl := Except.ok.inj hsend
    exact absurd rfl hstatus
  · exact ⟨_, ((ofMessage_eq_ok_iff h).mp hsend).2⟩
  · exact ⟨_, ((ofMessage_eq_ok_iff h).mp hsend).2⟩

/-- A message never becomes markup, and it is shown without loss. Where a template has no slot it
is the page itself. Where it has one, the first of them takes the message and all else stays as it
is, so that different messages have different pages; only a message with a surrogate has none. What
is sent instead of a file is such a page, whatever was asked for. -/
theorem message_shown (h : Page.template disk root = .ok template) :
    (∀ message, Markup.Harmless (Markup.escape message) ∧
      Markup.unescape (Markup.escape message) = message) ∧
    ((∀ before after, ¬Slot template before after) →
      (∀ status message, ∃ page, ofMessage disk root status message = .ok page ∧
        page.status = status ∧ page.Shows template) ∧
      ∀ file page, (Asset.send disk root file).1 = .ok page → page.status ≠ 200 →
        page.Shows template) ∧
    ((∃ before after, Slot template before after) →
      ∃ before after, FirstSlot template before after ∧
        (∀ status message, message.any CodePoint.isSurrogate = false →
          ∃ page, ofMessage disk root status message = .ok page ∧ page.status = status ∧
            page.Shows (shown before message after)) ∧
        (∀ status message, message.any CodePoint.isSurrogate = true →
          ofMessage disk root status message = .error .unencodable) ∧
        (∀ status message page otherStatus other otherPage,
          ofMessage disk root status message = .ok page →
          ofMessage disk root otherStatus other = .ok otherPage →
          message ≠ other → page.body ≠ otherPage.body) ∧
        ∀ file page, (Asset.send disk root file).1 = .ok page → page.status ≠ 200 →
          ∃ message, page.Shows (shown before message after)) := by
  have htemplate := any_isSurrogate_template h
  refine ⟨fun message => ⟨Markup.harmless_escape message, Markup.unescape_escape message⟩, ?_, ?_⟩
  · intro hnone
    have hslot : slot? template = none := by
      cases hslot : slot? template with
      | none => rfl
      | some parts => exact absurd (firstSlot_of_some hslot).slot (hnone _ _)
    refine ⟨fun status message => ?_, fun file page hsend hstatus => ?_⟩
    · rw [ofMessage_of_template h, fill_of_slot?_none hslot]
      exact exists_ofMarkup htemplate status
    · obtain ⟨message, hshows⟩ := shows_of_send h hsend hstatus
      rwa [fill_of_slot?_none hslot] at hshows
  · rintro ⟨_, _, hexists⟩
    cases hslot : slot? template with
    | none => exact absurd hexists (not_slot_of_none hslot _ _)
    | some parts =>
      obtain ⟨before, after⟩ := parts
      have hfirst := firstSlot_of_some hslot
      have hsurrogate := any_isSurrogate_shown hfirst.slot htemplate
      refine ⟨before, after, hfirst, ?_, ?_, ?_, ?_⟩
      · intro status message hmessage
        rw [ofMessage_of_template h, fill_of_some hslot]
        exact exists_ofMarkup ((hsurrogate message).trans hmessage) status
      · intro status message hmessage
        rw [ofMessage_of_template h, fill_of_some hslot]
        exact ofMarkup_of_surrogate ((hsurrogate message).trans hmessage) status
      · intro status message page otherStatus other otherPage hpage hother hne hbody
        rw [ofMessage_eq_ok_iff h, fill_of_some hslot] at hpage hother
        exact hne (shown_inj (hpage.2.unique hother.2 hbody))
      · intro file page hsend hstatus
        obtain ⟨message, hshows⟩ := shows_of_send h hsend hstatus
        rw [fill_of_some hslot] at hshows
        exact ⟨message, hshows⟩

end Template

/-- A template with two slots, the first of them with a line feed in it. -/
def twoSlots : Text := "<p><body> \n</body><body></body>"

/-- A message with marks, an entity and a group reference in it. -/
theorem message_shown_twoSlots :
    let disk : File.Disk :=
      ⟨.folder [("error.html", .file (.ok (twoSlots.flatMap Utf8.encodePoint)))], "/"⟩
    let message : Text := "<b>\\1 &amp;"
    Page.template disk "/" = .ok twoSlots ∧ Slot twoSlots "<p>" "<body></body>" ∧
      message.any CodePoint.isSurrogate = false ∧
      Markup.unescape (Markup.escape message) = message ∧
      ∃ before after, FirstSlot twoSlots before after ∧
        ∃ page, ofMessage disk "/" 404 message = .ok page ∧
          page.Shows (shown before message after) := by
  intro disk message
  have htemplate : Page.template disk "/" = .ok twoSlots := by rfl
  have hslot : Slot twoSlots "<p>" "<body></body>" := ⟨" \n", rfl, rfl⟩
  have hmessage : message.any CodePoint.isSurrogate = false := by decide
  obtain ⟨hsafe, -, hshown⟩ := message_shown htemplate
  obtain ⟨before, after, hfirst, hpages, -⟩ := hshown ⟨_, _, hslot⟩
  obtain ⟨page, hpage, -, hshows⟩ := hpages 404 message hmessage
  exact ⟨htemplate, hslot, hmessage, (hsafe message).2, before, after, hfirst, page, hpage, hshows⟩

/-- A surrogate alone, and a template with a slot. -/
theorem surrogate_not_shown :
    let disk : File.Disk := ⟨.folder [], "/"⟩
    Page.template disk "/" = .ok plainTemplate ∧
      (∃ before after, Slot plainTemplate before after) ∧
      ∀ page, ofMessage disk "/" 200 [.ofNat 0xD800] ≠ .ok page := by
  intro disk
  have htemplate : Page.template disk "/" = .ok plainTemplate := rfl
  have hslot : (slot? plainTemplate).isSome = true := by decide +kernel
  obtain ⟨⟨before, after⟩, hparts⟩ := Option.isSome_iff_exists.mp hslot
  have hsurrogate : (fill plainTemplate [.ofNat 0xD800]).any CodePoint.isSurrogate = true := by
    decide +kernel
  refine ⟨htemplate, ⟨before, after, (firstSlot_of_some hparts).slot⟩, fun page hpage => ?_⟩
  rw [ofMessage_of_template htemplate, ofMarkup_of_surrogate hsurrogate] at hpage
  cases hpage

end Page

end LiveTree.Web
