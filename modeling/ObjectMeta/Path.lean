import ObjectMeta.Bytes
import ObjectMeta.Name

/-!
# Resource paths

A volume, a bucket or a key is addressed by one text, `/volume`, `/volume/bucket` or
`/volume/bucket/key`.  The same text names the resource for the locks and, as UTF-8, its entry in
the metadata tables, so a lock and the entry it guards always belong to the same resource.
-/

namespace ObjectMeta

structure ResourcePath where
  text : String
  deriving DecidableEq, Repr, Inhabited

namespace ResourcePath

def volume (volume : String) : ResourcePath := ⟨"/" ++ volume⟩

def bucket (volume bucket : String) : ResourcePath := ⟨"/" ++ volume ++ "/" ++ bucket⟩

def key (volume bucket key : String) : ResourcePath :=
  ⟨"/" ++ volume ++ "/" ++ bucket ++ "/" ++ key⟩

def tableKey (path : ResourcePath) : Bytes := Bytes.ofText path.text

end ResourcePath

end ObjectMeta
