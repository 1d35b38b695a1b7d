import ClusterBench.Experiment.Config
import ClusterBench.Files
import ClusterBench.Plot.Config
import ClusterBench.Targets

/-!
# Configuration files
-/

namespace ClusterBench

def loadConfig {α : Type} (kind : String) (decode : Json.Decoder α) (path : String) : Filing α :=
  Filing.within s!"load {kind} config {path}" do
    let entry ← Filing.within "deserialize open file" (Filing.ask (·.open? path))
    Filing.within "deserialize json" do
      let document := Json.Decoder.document decode (Utf8.decode (← Filing.bytes entry))
      Filing.lift (document.mapError fun fault => .of (.json fault))

def PlotConfig.load (path : String) : Filing PlotConfig := loadConfig "plot" decode path

def TargetsConfig.load (path : String) : Filing TargetsConfig := loadConfig "cmd" decode path

def ExperimentConfig.load (path : String) : Filing ExperimentConfig := do
  let config ← loadConfig "experiment" decode path
  Filing.lift config.validate
  return config

end ClusterBench
