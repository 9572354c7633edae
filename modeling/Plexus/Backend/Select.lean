import Plexus.Backend.Basic
import Plexus.Settings.Engine

/-!
# Choosing a backend
-/

namespace Plexus
namespace Backend

variable {α : Type} [Scalar α]

/--
The backend that settings ask for.  A graph backend needs a host that can build graphs,
unless a device is named; an open choice prefers it where it can run.
-/
def select (host : Host) (settings : EngineSettings) (training : TrainingSettings)
    (capabilities : Capabilities) : Except Fault (Backend α) :=
  match settings.backend with
  | .graph =>
      if !capabilities.hasGraphBuilder && (settings.device matches .null) then
        .error .graphNeedsAccelerator
      else .ok (graph host settings.device false)
  | .dense => .ok (dense host settings.device training)
  | .auto =>
      if capabilities.hasGraphBuilder then .ok (graph host settings.device false)
      else if capabilities.hasDense then .ok (dense host settings.device training)
      else .error .noBackend

end Backend
end Plexus
