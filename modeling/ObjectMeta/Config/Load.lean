import ObjectMeta.Config.Basic
import ObjectMeta.Config.Json
import ObjectMeta.Config.Toml

/-!
# Configuration texts

Settings written in TOML or in JSON.
-/

namespace ObjectMeta.Config

def ofJson? (text : String) : Option Config := (Json.parse? text).bind (ofDocument? true)

def ofToml? (text : String) : Option Config := (Toml.parse? text).bind (ofDocument? false)

end ObjectMeta.Config
