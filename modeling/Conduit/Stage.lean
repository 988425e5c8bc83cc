import Conduit.Bound
import Conduit.Group
import Conduit.Match
import Conduit.Project
import Conduit.Sort
import Conduit.Unwind

/-!
# Compiling a stage
-/

namespace Conduit

def compileStage (ctx : Context) (value : Json) : Compile StageOutput := do
  Journaled.note (.stageStarted ctx.kind ctx.position)
  match ctx.kind with
  | .match => Match.compile ctx value
  | .sort => Sort.compile ctx value
  | .group => Group.compile ctx value
  | .project | .addFields => Project.compile ctx value
  | .unwind => Unwind.compile ctx value
  | .limit | .skip => Bound.compile ctx value

end Conduit
