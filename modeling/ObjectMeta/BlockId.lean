/-!
# Block ids

A physical block is named by its container and its number in that container.
-/

namespace ObjectMeta

structure BlockId where
  container : Int64
  localId : Int64
  deriving DecidableEq, Repr, Inhabited

namespace BlockId

def text (id : BlockId) : String :=
  "conID: " ++ toString id.container.toInt ++ " locID: " ++ toString id.localId.toInt

/-- Ids are ordered by container, then by number. -/
def le (a b : BlockId) : Bool :=
  a.container < b.container || (a.container == b.container && a.localId ≤ b.localId)

def sortedUnique (ids : List BlockId) : List BlockId := (ids.mergeSort le).eraseReps

end BlockId

end ObjectMeta
