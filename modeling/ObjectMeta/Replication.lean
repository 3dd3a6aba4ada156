/-!
# Replication

How the copies of a block are placed (the type) and how many there are (the factor).
-/

namespace ObjectMeta

/-- How the copies of a block are kept in step. -/
inductive ReplicationType where
  | standAlone
  | ratis
  | chained
  deriving DecidableEq, Repr, Inhabited

/-- The name under which a replication type is exchanged. -/
def ReplicationType.name : ReplicationType → String
  | .standAlone => "STAND_ALONE"
  | .ratis => "RATIS"
  | .chained => "CHAINED"

inductive ReplicationFactor where
  | one
  | three
  deriving DecidableEq, Repr, Inhabited

def ReplicationFactor.replicas : ReplicationFactor → Nat
  | .one => 1
  | .three => 3

def ReplicationFactor.name : ReplicationFactor → String
  | .one => "ONE"
  | .three => "THREE"

end ObjectMeta
