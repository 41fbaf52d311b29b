import LiveTree.Proofs.Parser.Course
import LiveTree.Proofs.Parser.Result

namespace LiveTree.Parser

namespace Ended

variable {process : Process} {timeout : Float} {input : Option Octets} {hit exited : Prop}
  {report : Report} {trace : Trace}

end Ended

namespace Course

variable {process : Process} {timeout : Float} {input : Option Octets} {moments : List Moment}
  {c : Course} {hit exited : Prop}

end Course

end LiveTree.Parser
