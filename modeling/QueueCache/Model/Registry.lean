import Mathlib.Data.Nat.Digits.Defs
import QueueCache.Model.AttachDevices
import QueueCache.Model.Device

/-! # The cache limits in the registry

`DriverEntry` reads the two limits from the `Parameters` key into signed 64-bit globals, whatever the type of the
values, and `QCacheAttachDevice` copies them into the statistics of each device it attaches. A value that
is missing, or too long for the buffer, leaves the default.
-/

namespace QueueCache

def QCACHE_MAX_QUEUE_ITEMS_DEFAULT_VALUE : ℤ := 10000

def QCACHE_MAX_QUEUE_SIZE_DEFAULT_VALUE : ℤ := 500 * 2 ^ 20

def sizeofLonglong : ℕ := 8

/-- The most data `ZwQueryValueKey` can return with success into the `reg_value` of a limit. -/
def limitCapacity : ℕ := keyValueSize + sizeofLonglong - keyValueDataOffset

/-- `RtlCopyMemory` of `min (DataLength, sizeof (LONGLONG))` bytes over a global that is zero. -/
def readLonglong (data : List UInt8) : ℤ := wrap64 (Nat.ofDigits 256 ((data.take sizeofLonglong).map UInt8.toNat))

/-- The query for one limit. Data that does not fit makes `ZwQueryValueKey` return a warning, which is no
success. -/
def queryLimit (value : ℤ) (data : Option (List UInt8)) : ℤ :=
  match data with
  | some data => if data.length ≤ limitCapacity then readLonglong data else value
  | none => value

/-- The data of the values under the `Parameters` key; nothing where there is no key or no such value. -/
structure Parameters where
  maxQueueItems : Option (List UInt8) := none
  maxQueueSize : Option (List UInt8) := none

namespace Parameters

def queueItems (parameters : Parameters) : ℤ :=
  queryLimit QCACHE_MAX_QUEUE_ITEMS_DEFAULT_VALUE parameters.maxQueueItems

def queueSize (parameters : Parameters) : ℤ :=
  queryLimit QCACHE_MAX_QUEUE_SIZE_DEFAULT_VALUE parameters.maxQueueSize

/-- A device as `QCacheAttachDevice` sets it up. -/
def device (parameters : Parameters) (cfg : Config) : Config :=
  { cfg with maxQueueItems := parameters.queueItems, maxQueueSize := parameters.queueSize }

end Parameters

end QueueCache
