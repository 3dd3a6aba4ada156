import ObjectMeta.Bytes

/-!
# The metadata tables

Volumes, buckets, keys still being written and committed keys are kept in tables of their own.
-/

namespace ObjectMeta

inductive Table where
  | volumes
  | buckets
  /-- Keys whose blocks are still being allocated. -/
  | openKeys
  /-- Committed keys. -/
  | keys
  deriving DecidableEq, Repr, Inhabited

namespace Table

def all : List Table := [volumes, buckets, openKeys, keys]

def rank : Table → Nat
  | volumes => 0
  | buckets => 1
  | openKeys => 2
  | keys => 3

def name : Table → String
  | volumes => "volumes"
  | buckets => "buckets"
  | openKeys => "open_keys"
  | keys => "keys"

end Table

end ObjectMeta
