import QueueCache.Model.Irp

/-! # The `AttachDevices` value

At load time `DriverEntry` reads a list of device names from the registry and attaches to each. It walks
the value with a `UNICODE_STRING` whose `Buffer` is the current name and whose `MaximumLength`, sixteen
bits wide, is what is left of the value. Neither the value's type nor its terminators are checked, so
the bytes behind the value are part of the model: reading there is an error the walk can make.
-/

namespace QueueCache

/-- `sizeof (KEY_VALUE_PARTIAL_INFORMATION)` and the offset of its `Data`. -/
def keyValueSize : ℕ := 16

def keyValueDataOffset : ℕ := 12

def UNICODE_STRING_MAX_BYTES : ℕ := 65534

/-- The most data `ZwQueryValueKey` can return with success into `reg_value`. -/
def regValueCapacity : ℕ := keyValueSize + UNICODE_STRING_MAX_BYTES - keyValueDataOffset

/-- Conversion to `USHORT`. -/
def toUshort (x : ℤ) : ℕ := (x % 2 ^ 16).toNat

/-- The bytes from `reg_value->Data` on, those of the value and those behind it. -/
abbrev RegistryData := ℕ → UInt8

/-- The 16-bit character at a byte offset. -/
def wchar (data : RegistryData) (offset : ℕ) : ℕ := (data offset).toNat + 256 * (data (offset + 1)).toNat

/-- `wcsnlen` on at most `count` characters from a byte offset: the length it returns and the offsets of
the characters it reads. -/
def wcsnlen (data : RegistryData) (offset : ℕ) : ℕ → ℕ × List ℕ
  | 0 => (0, [])
  | count + 1 =>
    if wchar data offset = 0 then (0, [offset])
    else
      let (length, reads) := wcsnlen data (offset + 2) count
      (length + 1, offset :: reads)

/-- `UNICODE_STRING`, with `Buffer` as a byte offset. -/
structure UnicodeString where
  buffer : ℕ
  length : ℕ := 0
  maximumLength : ℕ
deriving DecidableEq, Repr

/-- The loop of `DriverEntry`: the name it is at, the offsets `wcsnlen` has read, the names it has passed
to `QCacheAttachLegacyDevice`, and the status of an attach that made `DriverEntry` return. -/
structure AttachLoop where
  deviceName : UnicodeString
  reads : List ℕ := []
  attached : List UnicodeString := []
  returned : Option NtStatus := none
deriving DecidableEq, Repr

/-- The loop is entered with the length clipped to `MAXUSHORT`. -/
def AttachLoop.initial (dataLength : ℕ) : AttachLoop where
  deviceName := { buffer := 0, maximumLength := toUshort (min 65535 dataLength : ℕ) }

/-- The condition of the loop holds. -/
def AttachLoop.continues (loop : AttachLoop) : Bool := loop.returned = none && 6 ≤ loop.deviceName.maximumLength

/-- One iteration; `status` is what `QCacheAttachLegacyDevice` returns. -/
def attachStep (data : RegistryData) (loop : AttachLoop) (status : NtStatus) : Option AttachLoop :=
  if loop.continues then
    let (len, reads) := wcsnlen data loop.deviceName.buffer (loop.deviceName.maximumLength / 2)
    let deviceName := { loop.deviceName with length := toUshort (len * 2 : ℕ) }
    let loop := { loop with reads := loop.reads ++ reads, attached := loop.attached ++ [deviceName] }
    if ntSuccess status then
      some { loop with deviceName := { deviceName with
        buffer := deviceName.buffer + 2 * (len + 1)
        maximumLength := toUshort (deviceName.maximumLength - (deviceName.length + 2)) } }
    else some { loop with deviceName := deviceName, returned := some status }
  else none

end QueueCache
