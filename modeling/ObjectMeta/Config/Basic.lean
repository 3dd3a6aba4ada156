import ObjectMeta.Config.Document
import ObjectMeta.Operation.Key

/-!
# Configuration

The settings of a service, in four sections.  Every section and every setting has a default; what
a document says beyond them is ignored, but what it says about them must be of the right kind and
be said once.  A section may also be given as the list of its settings in order.
-/

namespace ObjectMeta

structure SecurityConfig where
  enabled : Bool := false
  blockTokenEnabled : Bool := false
  /-- The lifetime of tokens in milliseconds. -/
  blockTokenExpiry : Int64 := 86400000
  /-- The file of the signing key; without one it lies beside the database. -/
  signingKeyPath : Option String := none
  deriving DecidableEq, Repr, Inhabited

structure AllocatorConfig where
  chillMode : Bool := false
  container : Int64 := 1
  deriving DecidableEq, Repr, Inhabited

structure ServiceConfig where
  keys : KeyService := {}
  databasePath : String := "/var/lib/keystead/om.redb"
  deriving DecidableEq, Repr, Inhabited

structure Config where
  service : ServiceConfig := {}
  security : SecurityConfig := {}
  allocator : AllocatorConfig := {}
  logLevel : String := "info"
  deriving DecidableEq, Repr, Inhabited

/-- Tokens are issued if both switches are on. -/
def Config.blockTokensEnabled (config : Config) : Bool :=
  config.security.enabled && config.security.blockTokenEnabled

/-! ## Settings of a document -/

namespace Document

def boolean? : Document → Option Bool
  | boolean value => some value
  | _ => none

def int64? : Document → Option Int64
  | integer value =>
    if Int64.minValue.toInt ≤ value && value ≤ Int64.maxValue.toInt then some (Int64.ofInt value)
    else none
  | _ => none

def text? : Document → Option String
  | text value => some value
  | _ => none

def optionalText? : Document → Option (Option String)
  | null => some none
  | text value => some (some value)
  | _ => none

structure Setting (σ : Type) where
  name : String
  /-- Puts a value into the section, if it is of the right kind. -/
  put : Document → σ → Option σ

def setting {σ α : Type} (name : String) (read : Document → Option α) (put : α → σ → σ) :
    Setting σ where
  name := name
  put document section_ := (read document).map (put · section_)

variable {σ : Type}

/-- Reads named values into a section: unknown names are ignored, known ones come at most once. -/
def readEntries (settings : List (Setting σ)) :
    Entries → (seen : List String) → σ → Option σ
  | [], _, current => some current
  | (none, _) :: _, _, _ => none
  | (some name, document) :: rest, seen, current =>
    match settings.find? (·.name = name) with
    | none => readEntries settings rest seen current
    | some setting =>
      if name ∈ seen then none
      else (setting.put document current).bind (readEntries settings rest (name :: seen))

/-- Reads values into the settings of a section in their order; `strict` refuses values beyond. -/
def readItems (strict : Bool) : List (Setting σ) → List Document → σ → Option σ
  | _, [], current => some current
  | [], _ :: _, current => if strict then none else some current
  | setting :: settings, document :: rest, current =>
    (setting.put document current).bind (readItems strict settings rest)

/-- Reads a section.  A date says nothing about any setting. -/
def readSection (strict : Bool) (settings : List (Setting σ)) (section_ : σ) :
    Document → Option σ
  | table _ entries => readEntries settings entries [] section_
  | list items => readItems strict settings items section_
  | date => some section_
  | _ => none

end Document

namespace Config

open Document

def serviceSettings : List (Setting ServiceConfig) := [
  setting "service_id" text? fun serviceId c => { c with keys := { c.keys with serviceId } },
  setting "db_path" text? fun databasePath c => { c with databasePath },
  setting "block_size" int64? fun blockSize c => { c with keys := { c.keys with blockSize } },
  setting "lookup_open_keys" boolean? fun lookupOpenKeys c =>
    { c with keys := { c.keys with lookupOpenKeys } }]

def securitySettings : List (Setting SecurityConfig) := [
  setting "enabled" boolean? fun enabled c => { c with enabled },
  setting "block_token_enabled" boolean? fun blockTokenEnabled c => { c with blockTokenEnabled },
  setting "block_token_expiry_ms" int64? fun blockTokenExpiry c => { c with blockTokenExpiry },
  setting "signing_key_path" optionalText? fun signingKeyPath c => { c with signingKeyPath }]

def allocatorSettings : List (Setting AllocatorConfig) := [
  setting "chill_mode" boolean? fun chillMode c => { c with chillMode },
  setting "container_id" int64? fun container c => { c with container }]

def loggingSettings : List (Setting String) := [setting "level" text? fun level _ => level]

def sections (strict : Bool) : List (Setting Config) := [
  setting "om" (readSection strict serviceSettings {}) fun service c => { c with service },
  setting "security" (readSection strict securitySettings {}) fun security c => { c with security },
  setting "scm" (readSection strict allocatorSettings {}) fun allocator c => { c with allocator },
  setting "logging" (readSection strict loggingSettings "info") fun logLevel c =>
    { c with logLevel }]

/-- The settings that a document gives; a strict reading refuses a list with more values than its
section has settings. -/
def ofDocument? (strict : Bool) (document : Document) : Option Config :=
  readSection strict (sections strict) {} document

end Config

end ObjectMeta
