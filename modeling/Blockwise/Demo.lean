import Blockwise.Chart.Editing

/-!
# The demonstration chart

Reads the side of a cube, prints its volume and comments on its size.
-/

namespace Blockwise
namespace Demo

def build : Except ChartError Chart := do
  let (read, chart) := Chart.new.add (.ofRole .input) "read side as Number"
  let (volume, chart) := chart.add (.ofRole .declaration) "vol = side ^ 3"
  let (print, chart) := chart.add (.ofRole .output) "\"The volume is $vol\""
  let (isBig, chart) := chart.add (.ofRole .decision) "vol > 100"
  let (big, chart) := chart.add (.ofRole .output) "\"That is a big cube\""
  let (small, chart) := chart.add (.ofRole .output)
    "\"A small one, sqrt of the volume is \" + round(sqrt(vol), 2)"
  let (finish, chart) := chart.add (.ofRole .finish) ""
  let chart ← chart.connect chart.start read
  let chart ← chart.connect read volume
  let chart ← chart.connect volume print
  let chart ← chart.connect print isBig
  let chart ← chart.connectBranch isBig big small
  let chart ← chart.connect big finish
  chart.connect small finish

end Demo
end Blockwise
