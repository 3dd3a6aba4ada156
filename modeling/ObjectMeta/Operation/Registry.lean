import ObjectMeta.Operation.Program

/-!
# Volumes and buckets

A bucket is created inside an existing volume, and nothing is created twice.  Creating a volume
writes under its lock; creating a bucket shares the volume's lock and writes under the bucket's.
-/

namespace ObjectMeta.Operation

/-- The name of a bucket in messages. -/
def bucketName (volume bucket : String) : String := volume ++ "/" ++ bucket

def createVolume (volume owner : String) : Operation VolumeInfo := do
  checked (validateVolumeName volume)
  locked (.volume volume) .write do
    if ← contains .volumes (.volume volume) then
      throw (.resourceExists .volume volume)
    let info : VolumeInfo := { name := volume, owner, creationTime := ← now }
    putRecord .volumes (.volume volume) info
    return info

def createBucket (volume bucket : String) : Operation BucketInfo := do
  checked (validateVolumeName volume)
  checked (validateBucketName bucket)
  locked (.volume volume) .read do
    locked (.bucket volume bucket) .write do
      unless ← contains .volumes (.volume volume) do
        throw (.resourceNotFound .volume volume)
      if ← contains .buckets (.bucket volume bucket) then
        throw (.resourceExists .bucket (bucketName volume bucket))
      let info : BucketInfo := { volume, name := bucket, creationTime := ← now }
      putRecord .buckets (.bucket volume bucket) info
      return info

def getVolume (volume : String) : Operation (Option VolumeInfo) :=
  getRecord VolumeInfo .volumes (.volume volume)

def getBucket (volume bucket : String) : Operation (Option BucketInfo) :=
  getRecord BucketInfo .buckets (.bucket volume bucket)

def checkBucketExists (volume bucket : String) : Operation Unit := do
  unless ← contains .volumes (.volume volume) do
    throw (.resourceNotFound .volume volume)
  unless ← contains .buckets (.bucket volume bucket) do
    throw (.resourceNotFound .bucket (bucketName volume bucket))

end ObjectMeta.Operation
