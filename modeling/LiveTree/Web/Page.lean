import LiveTree.File.Disk
import LiveTree.Text.Blank
import LiveTree.Text.Line
import LiveTree.Text.Markup
import LiveTree.Text.Utf8

namespace LiveTree.Web

/-- An answer with a body of some type. -/
structure Page where
  status : Nat
  type : Text
  body : Octets

/-- Why a page could not be made. -/
inductive PageFault where
  /-- The template is no text. -/
  | template (fault : Utf8.Fault)
  /-- The page holds a surrogate. -/
  | unencodable

namespace Page

/-- A page of markup. -/
def ofMarkup (status : Nat) (markup : Text) : Except PageFault Page :=
  match Utf8.encode? markup with
  | none => .error .unencodable
  | some body => .ok ⟨status, "text/html", body⟩

/-- What follows an empty body element that stands at the start of a text. -/
def afterSlot? (s : Text) : Option Text :=
  match dropStart? (Text.ofString "<body>") s with
  | none => none
  | some rest => dropStart? (Text.ofString "</body>") (rest.dropWhile CodePoint.isBlank)

/-- What comes before and after the first empty body element. -/
def slot? : Text → Option (Text × Text)
  | [] => none
  | c :: s =>
    match afterSlot? (c :: s) with
    | some after => some ([], after)
    | none => (slot? s).map fun (before, after) => (c :: before, after)

/-- A template with a message in its empty body; without such a body the template itself. -/
def fill (template message : Text) : Text :=
  match slot? template with
  | none => template
  | some (before, after) =>
    before ++ "<body><div>" ++ Markup.escape message ++ "</div></body>" ++ after

/-- The template of a site that has none of its own. -/
def plainTemplate : Text :=
  "<!DOCTYPE html>\n<html>\n<head><meta charset=\"utf-8\"><title>Error</title></head>\n" ++
    "<body>\n</body>\n</html>\n"

def templateName : Text := "error.html"

/-- The template in a directory. -/
def template (disk : File.Disk) (root : Text) : Except PageFault Text :=
  match disk.read? (Path.append root templateName) with
  | none => .ok plainTemplate
  | some octets =>
    match Utf8.decode octets with
    | .error fault => .error (.template fault)
    | .ok text => .ok (Text.normaliseLines text)

/-- A page that shows a message. -/
def ofMessage (disk : File.Disk) (root : Text) (status : Nat) (message : Text) :
    Except PageFault Page :=
  match template disk root with
  | .error fault => .error fault
  | .ok template => ofMarkup status (fill template message)

/-- A page for what is no business of the viewer. -/
def ofStatus (status : Nat) (name description : Text) : Page :=
  let markup : Text :=
    "<!doctype html>\n<html lang=en>\n<title>" ++ Text.ofNat status ++ " " ++ name ++
      "</title>\n<h1>" ++ name ++ "</h1>\n<p>" ++ description ++ "</p>\n"
  ⟨status, "text/html", markup.flatMap Utf8.encodePoint⟩

def notFound : Page :=
  ofStatus 404 "Not Found" ("The requested URL was not found on the server. If you entered the " ++
    "URL manually please check your spelling and try again.")

def serverError : Page :=
  ofStatus 500 "Internal Server Error" ("The server encountered an internal error and was unable " ++
    "to complete your request. Either the server is overloaded or there is an error in the " ++
    "application.")

@[simp] theorem slot?_nil : slot? [] = none := rfl

theorem fill_of_slot?_none {template : Text} (h : slot? template = none) (message : Text) :
    fill template message = template := by simp [fill, h]

end Page

end LiveTree.Web
