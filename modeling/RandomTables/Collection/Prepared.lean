import RandomTables.Program
import RandomTables.Selection

namespace RandomTables

structure PreparedTable where
  table : Table
  sums : List Float
  total : Float

namespace PreparedTable

def ofTable (t : Table) : PreparedTable :=
  let sums := runningSums (t.rules.map (·.value.weight))
  ⟨t, sums, sums.getLastD 0⟩

def select (t : PreparedTable) (drawn : Float) : Int :=
  selectIndex t.sums drawn

end PreparedTable

end RandomTables
