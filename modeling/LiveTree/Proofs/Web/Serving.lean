import LiveTree.Proofs.Web.Page
import LiveTree.Proofs.Web.Resolve

namespace LiveTree.Web.Asset

open File (Disk Tree)
open LiveTree.Path

/-- What is looked at after a request that leads to a directory. -/
def nextName (file : Text) : Text :=
  let path := trim (· == slash) file
  if path.isEmpty then indexName path else path ++ "/" ++ indexName path

theorem look_cases (disk : Disk) (root file : Text) :
    look disk root file = .ended (.error (.outside file)) ∨
      ∃ location, look disk root file = lookAt disk file location (nextName file) := by
  simp only [look, nextName]
  split_ifs
  · exact .inr ⟨_, rfl⟩
  · cases below? root (trim (· == slash) file) with
    | none => exact .inl rfl
    | some location => exact .inr ⟨location, rfl⟩

section Look

variable {disk : Disk} {root file : Text}

theorem fault_of_look {fault : File.Fault} (h : look disk root file = .ended (.error fault)) :
    fault = .noFile file ∨ fault = .outside file := by
  obtain hlook | ⟨location, hlook⟩ := look_cases disk root file
  · rw [hlook] at h
    exact .inr (Except.error.inj (Look.ended.inj h)).symm
  · rw [hlook] at h
    obtain hresult | ⟨content, hresult, -⟩ := lookAt_ended h
    · exact .inl (Except.error.inj hresult)
    · cases hresult

theorem name_of_look {name : Text} (h : look disk root file = .next name) :
    name = nextName file := by
  obtain hlook | ⟨location, hlook⟩ := look_cases disk root file
  · rw [hlook] at h
    cases h
  · rw [hlook] at h
    exact lookAt_next h

end Look

theorem any_isSurrogate_indexName {path : Text} (h : path.any CodePoint.isSurrogate = false) :
    (indexName path).any CodePoint.isSurrogate = false := by
  have hindex : (Text.ofString "index.").any CodePoint.isSurrogate = false := by decide
  have hending : (trimLeft (· == CodePoint.ofChar '.') (extension path)).any
      CodePoint.isSurrogate = false := by
    rw [List.any_eq_false] at h ⊢
    intro c hc
    rcases of_mem_extension ((List.dropWhile_sublist _).subset hc) with rfl | ⟨hpath, -⟩
    · decide
    · exact h c hpath
  rw [indexName]
  split
  · decide
  · rw [List.any_append, hindex, Bool.false_or, hending]

theorem any_isSurrogate_nextName {file : Text} (h : file.any CodePoint.isSurrogate = false) :
    (nextName file).any CodePoint.isSurrogate = false := by
  obtain ⟨left, right, hfile, -⟩ := exists_padding (· == slash) file
  rw [hfile] at h
  simp only [List.any_append, Bool.or_eq_false_iff] at h
  obtain ⟨-, htrim, -⟩ := h
  have hindex := any_isSurrogate_indexName htrim
  have hslash : (Text.ofString "/").any CodePoint.isSurrogate = false := by decide
  simp only [nextName]
  split_ifs
  · exact hindex
  · simp only [List.any_append, htrim, hslash, hindex, Bool.or_self]

/-- A fault is told in words that have octets, if the request is. -/
theorem Resolves.any_isSurrogate_message {disk : Disk} {root file : Text} {fault : File.Fault}
    (h : Resolves disk root file (.error fault)) (hfile : file.any CodePoint.isSurrogate = false) :
    fault.message.any CodePoint.isSurrogate = false := by
  -- Each look is at the request or at a name that is built from it.
  generalize hresult : Except.error fault = result at h
  induction h with
  | ended look_eq =>
    subst hresult
    have hbefore : (Text.ofString "No such file '").any CodePoint.isSurrogate = false := by decide
    have hinvalid : (Text.ofString "Invalid path '").any CodePoint.isSurrogate = false := by decide
    have hafter : (Text.ofString "'").any CodePoint.isSurrogate = false := by decide
    obtain rfl | rfl := fault_of_look look_eq
    · simp only [File.Fault.message, List.any_append, hbefore, hfile, hafter, Bool.or_self]
    · simp only [File.Fault.message, List.any_append, hinvalid, hfile, hafter, Bool.or_self]
  | next look_eq _ ih =>
    obtain rfl := name_of_look look_eq
    exact ih (any_isSurrogate_nextName hfile) hresult

mutual

theorem ofTree_nil : ∀ (path : Text) (tree : Tree), ofTree [] path tree = ofTree "." path tree
  | path, .file content => rfl
  | path, .folder entries => by
    rw [ofTree, ofTree]
    exact ofEntries_nil _ _ entries

theorem ofEntries_nil : ∀ (path name : Text) (entries : List (Text × Tree)),
    ofEntries [] path name entries = ofEntries "." path name entries
  | path, name, [] => rfl
  | path, name, (entry, tree) :: entries => by
    rw [ofEntries, ofEntries, ofTree_nil path tree, ofEntries_nil path name entries]

end

theorem lookup_nil (disk : Disk) (file path : Text) :
    lookup disk [] file path = lookup disk "." file path := by
  have hbelow : below? [] path = below? "." path := rfl
  simp only [lookup, hbelow, ofTree_nil]

/-- No root is the directory that relative paths start from. -/
theorem resolve_nil (disk : Disk) (file : Text) : resolve disk [] file = resolve disk "." file := by
  have hroot : disk.absolute [] = disk.absolute "." := absolute_nil disk.workdir
  simp only [resolve, hroot, lookup_nil]

theorem exists_resolves (disk : Disk) (root file : Text) :
    ∃ base, base ≠ [] ∧ Resolves disk base file (resolve disk root file) := by
  by_cases hroot : root = []
  · have hdot : Text.ofString "." ≠ [] := by decide
    rw [hroot, resolve_nil]
    exact ⟨_, hdot, resolves_resolve hdot disk file⟩
  · exact ⟨root, hroot, resolves_resolve hroot disk file⟩

section Send

variable {disk : Disk} {root file : Text}

theorem find?_of_resolve {asset : Asset} (h : resolve disk root file = .ok asset) :
    disk.find? asset.location = some (.file asset.content) := by
  obtain ⟨base, hbase, hresolves⟩ := exists_resolves disk root file
  rw [h] at hresolves
  exact (hresolves.allowed hbase).1

theorem status_of_resolve {fault : File.Fault} (h : resolve disk root file = .error fault) :
    fault.status = 404 := by
  obtain ⟨base, hbase, hresolves⟩ := exists_resolves disk root file
  rw [h] at hresolves
  exact hresolves.allowed hbase

theorem any_isSurrogate_message_of_resolve {fault : File.Fault}
    (h : resolve disk root file = .error fault) (hfile : file.any CodePoint.isSurrogate = false) :
    fault.message.any CodePoint.isSurrogate = false := by
  obtain ⟨base, -, hresolves⟩ := exists_resolves disk root file
  rw [h] at hresolves
  exact hresolves.any_isSurrogate_message hfile

/-- A template that is there, but is no text. -/
def Garbled (disk : Disk) (root : Text) : Prop :=
  ∃ octets fault, disk.read? (append root Page.templateName) = some octets ∧
    Utf8.decode octets = .error fault

theorem exists_template_iff :
    (∃ template, Page.template disk root = .ok template) ↔ ¬Garbled disk root := by
  rw [Page.template, Garbled]
  cases hread : disk.read? (append root Page.templateName) with
  | none => simp
  | some octets => cases hdecode : Utf8.decode octets <;> simp [hdecode]

/-- A page of a site that shows a message. -/
def Told (disk : Disk) (root message : Text) (page : Page) : Prop :=
  ∃ template, Page.template disk root = .ok template ∧ page.Shows (Page.fill template message)

theorem told_of_ofMessage {status : Nat} {message : Text} {page : Page}
    (h : Page.ofMessage disk root status message = .ok page) :
    page.status = status ∧ Told disk root message page := by
  cases htemplate : Page.template disk root with
  | error fault =>
    rw [Page.ofMessage, htemplate] at h
    cases h
  | ok template =>
    obtain ⟨hstatus, hshows⟩ := (Page.ofMessage_eq_ok_iff htemplate).mp h
    exact ⟨hstatus, template, htemplate, hshows⟩

theorem exists_ofMessage_iff {message : Text} (h : message.any CodePoint.isSurrogate = false)
    (status : Nat) :
    (∃ page, Page.ofMessage disk root status message = .ok page) ↔ ¬Garbled disk root := by
  rw [← exists_template_iff]
  constructor
  · rintro ⟨page, hpage⟩
    obtain ⟨-, template, htemplate, -⟩ := told_of_ofMessage hpage
    exact ⟨template, htemplate⟩
  · rintro ⟨template, htemplate⟩
    have hfill := Page.any_isSurrogate_fill (Page.any_isSurrogate_template htemplate) h
    obtain ⟨page, hpage, -⟩ := Page.exists_ofMarkup hfill status
    exact ⟨page, (Page.ofMessage_of_template htemplate status message).trans hpage⟩

/-- The page that a request is to have: the octets of the file that it means, or why there are
none. -/
inductive Answers (disk : Disk) (root file : Text) (page : Page) : Prop
  | sent {location : Text} {octets : Octets}
    (resolve_eq : resolve disk root file = .ok ⟨location, .ok octets⟩)
    (found : disk.find? location = some (.file (.ok octets)))
    (page_eq : page = ⟨200, contentType location, octets⟩)
  | unreadable {location reason : Text}
    (resolve_eq : resolve disk root file = .ok ⟨location, .error reason⟩)
    (found : disk.find? location = some (.file (.error reason)))
    (status_eq : page.status = 500) (told : Told disk root reason page)
  | missing {fault : File.Fault} (resolve_eq : resolve disk root file = .error fault)
    (status_eq : page.status = 404) (told : Told disk root fault.message page)

theorem answers_of_send {page : Page} (h : (send disk root file).1 = .ok page) :
    Answers disk root file page := by
  rw [send] at h
  split at h
  · rename_i location octets hresolve
    exact .sent hresolve (find?_of_resolve hresolve) (Except.ok.inj h).symm
  · rename_i location reason hresolve
    obtain ⟨hstatus, htold⟩ := told_of_ofMessage h
    exact .unreadable hresolve (find?_of_resolve hresolve) hstatus htold
  · rename_i fault hresolve
    obtain ⟨hstatus, htold⟩ := told_of_ofMessage h
    exact .missing hresolve (hstatus.trans (status_of_resolve hresolve)) htold

/-- A request is answered, with the octets of a file or with a page that says why there are none,
except where that page is needed and its template is there and is no text. -/
theorem send_answered (hfile : file.any CodePoint.isSurrogate = false)
    (hreason : ∀ location reason, resolve disk root file = .ok ⟨location, .error reason⟩ →
      reason.any CodePoint.isSurrogate = false) :
    ((∃ page, (send disk root file).1 = .ok page) ↔
      (∃ location octets, resolve disk root file = .ok ⟨location, .ok octets⟩) ∨
        ¬Garbled disk root) ∧
    ∀ page, (send disk root file).1 = .ok page → Answers disk root file page := by
  refine ⟨?_, fun page => answers_of_send⟩
  rw [send]
  split
  · rename_i location octets hresolve
    exact ⟨fun _ => .inl ⟨location, octets, hresolve⟩, fun _ => ⟨_, rfl⟩⟩
  · rename_i location reason hresolve
    rw [exists_ofMessage_iff (hreason location reason hresolve)]
    simp [hresolve]
  · rename_i fault hresolve
    rw [exists_ofMessage_iff (any_isSurrogate_message_of_resolve hresolve hfile)]
    simp [hresolve]

end Send

/-- A template that cannot be read, and a folder whose index cannot. -/
def lockedFiles : Disk where
  tree := .folder [("error.html", .file (.error "denied")),
    ("docs", .folder [("index.html", .file (.error "denied"))])]
  workdir := "/"

theorem send_answered_locked :
    let file : Text := "/docs/"
    file.any CodePoint.isSurrogate = false ∧
      resolve lockedFiles "/" file = .ok ⟨"/docs/index.html", .error "denied"⟩ ∧
      ∃ page, (send lockedFiles "/" file).1 = .ok page ∧ page.status = 500 ∧
        page.Shows (Page.fill Page.plainTemplate "denied") := by
  intro file
  have hfile : file.any CodePoint.isSurrogate = false := by decide
  have hresolve : resolve lockedFiles "/" "/docs/" =
      .ok ⟨"/docs/index.html", .error "denied"⟩ := rfl
  have hreason : ∀ location reason, resolve lockedFiles "/" file = .ok ⟨location, .error reason⟩ →
      reason.any CodePoint.isSurrogate = false := by
    intro location reason h
    obtain ⟨-, hcontent⟩ := (mk.injEq ..).mp (Except.ok.inj (hresolve.symm.trans h))
    obtain rfl := Except.error.inj hcontent
    decide
  have htemplate : Page.template lockedFiles "/" = .ok Page.plainTemplate := rfl
  obtain ⟨hanswered, hanswers⟩ := send_answered hfile hreason
  obtain ⟨page, hpage⟩ := hanswered.mpr (.inr (exists_template_iff.mp ⟨_, htemplate⟩))
  refine ⟨hfile, hresolve, page, hpage, ?_⟩
  cases hanswers page hpage with
  | sent resolve_eq => cases hresolve.symm.trans resolve_eq
  | unreadable resolve_eq _ status_eq told =>
    obtain ⟨-, hcontent⟩ := (mk.injEq ..).mp (Except.ok.inj (hresolve.symm.trans resolve_eq))
    obtain rfl := Except.error.inj hcontent
    obtain ⟨template, htold, hshows⟩ := told
    obtain rfl := Except.ok.inj (htemplate.symm.trans htold)
    exact ⟨status_eq, hshows⟩
  | missing resolve_eq => cases hresolve.symm.trans resolve_eq

/-- A template that is one octet which stands for nothing, and a file that is not there. -/
theorem garbled_not_answered :
    let disk : Disk := ⟨.folder [("error.html", .file (.ok [0xFF]))], "/"⟩
    let file : Text := "missing"
    file.any CodePoint.isSurrogate = false ∧ resolve disk "/" file = .error (.noFile file) ∧
      ∀ page, (send disk "/" file).1 ≠ .ok page := by
  intro disk file
  have hsend : ∃ fault, (send disk "/" file).1 = .error (.template fault) := ⟨_, rfl⟩
  obtain ⟨fault, hfault⟩ := hsend
  refine ⟨by decide, rfl, fun page hpage => ?_⟩
  cases hfault.symm.trans hpage

end LiveTree.Web.Asset
