import LiveTree.Association
import LiveTree.File.Path

namespace LiveTree.Web

def contentTypes : Association Text :=
  [
    (".ico", "image/x-icon"),
    (".html", "text/html"),
    (".js", "text/javascript"),
    (".json", "application/json"),
    (".css", "text/css"),
    (".png", "image/png"),
    (".jpg", "image/jpeg"),
    (".wav", "audio/wav"),
    (".mp3", "audio/mpeg"),
    (".svg", "image/svg+xml"),
    (".pdf", "application/pdf"),
    (".doc", "application/msword")]

/-- The content type of a file by its extension, whatever the case of its letters. -/
def contentType (path : Text) : Text :=
  (Association.find? ((Path.extension path).map CodePoint.toAsciiLower) contentTypes).getD
    "text/plain"

end LiveTree.Web
