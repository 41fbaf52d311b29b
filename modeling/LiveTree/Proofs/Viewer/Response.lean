import LiveTree.Proofs.Display.Payload
import LiveTree.Proofs.Viewer.Hearing

namespace LiveTree.Display.Node

end LiveTree.Display.Node

namespace LiveTree.Viewer.Session

variable {ω R : Type} [Measure R] {callbacks : Callbacks ω R}

end LiveTree.Viewer.Session
