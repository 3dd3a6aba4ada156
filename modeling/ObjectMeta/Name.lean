/-!
# Names of volumes, buckets and keys

A volume or bucket name is a non-empty text without the path separator; a key name is any non-empty
text.  Keeping the separator out of the first two makes every path `/volume/bucket/key` readable in
one way only, whatever the key name holds.
-/

namespace ObjectMeta

def pathSeparator : Char := '/'

inductive RequestError where
  | emptyVolume
  | emptyBucket
  | emptyKey
  | invalidVolumeName (name : String)
  | invalidBucketName (name : String)
  | negativeSize (size : Int64)
  deriving DecidableEq, Repr, Inhabited

def RequestError.message : RequestError → String
  | .emptyVolume => "volume name must not be empty"
  | .emptyBucket => "bucket name must not be empty"
  | .emptyKey => "key name must not be empty"
  | .invalidVolumeName name => "volume name must not contain '/': " ++ name
  | .invalidBucketName name => "bucket name must not contain '/': " ++ name
  | .negativeSize size => "data size must not be negative: " ++ toString size.toInt

def validateVolumeName (name : String) : Except RequestError Unit :=
  if name = "" then .error .emptyVolume
  else if pathSeparator ∈ name.toList then .error (.invalidVolumeName name)
  else .ok ()

def validateBucketName (name : String) : Except RequestError Unit :=
  if name = "" then .error .emptyBucket
  else if pathSeparator ∈ name.toList then .error (.invalidBucketName name)
  else .ok ()

def ValidName (name : String) : Prop := name ≠ "" ∧ pathSeparator ∉ name.toList

theorem validateVolumeName_eq_ok_iff {name : String} :
    validateVolumeName name = .ok () ↔ ValidName name := by
  unfold validateVolumeName ValidName
  split
  · simp_all
  · split <;> simp_all

theorem validateBucketName_eq_ok_iff {name : String} :
    validateBucketName name = .ok () ↔ ValidName name := by
  unfold validateBucketName ValidName
  split
  · simp_all
  · split <;> simp_all

end ObjectMeta
