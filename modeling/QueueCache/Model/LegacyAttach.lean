import QueueCache.Model.AttachDevices

/-! # Attaching to a named device

`DriverEntry` passes every name of its list to `QCacheAttachLegacyDevice`, which looks the device up, lets
`QCacheAttachDevice` put a filter device on its stack and then initializes the extension that the call
returned. What the kernel answers on the way is an `AttachOutcome`. A filter device stays in the list of
devices when it is deleted, so that its position is its address; an extension that was never assigned is
`none`.
-/

namespace QueueCache

/-- What the kernel answers while one name is attached: the status of `IoGetDeviceObjectPointer`, whether
`FILE_READ_ONLY_DEVICE` is among the characteristics, the status of `IoCreateDevice`, whether
`IoAttachDeviceToDeviceStack` returns a target, whether the target has `DO_DIRECT_IO`, and the status of
`PsCreateSystemThread`. -/
structure AttachOutcome where
  getDeviceObjectPointer : NtStatus := STATUS_SUCCESS
  readOnlyDevice : Bool := false
  createDevice : NtStatus := STATUS_SUCCESS
  attachToDeviceStack : Bool := true
  directIo : Bool := true
  createSystemThread : NtStatus := STATUS_SUCCESS
deriving DecidableEq, Repr

/-- A filter device that this driver has created. -/
structure FilterDevice where
  attached : Bool := false
  workerThread : Bool := false
  deleted : Bool := false
deriving DecidableEq, Repr

def FilterDevice.ioDetachDevice (device : FilterDevice) : FilterDevice := { device with attached := false }

def FilterDevice.ioDeleteDevice (device : FilterDevice) : FilterDevice := { device with deleted := true }

/-- `QCacheCleanupDevice`: a worker is told to shut down and waited for. -/
def FilterDevice.cleanup (device : FilterDevice) : FilterDevice :=
  if device.workerThread then { device with workerThread := false } else device

/-- One call of `QCacheInitializeDevice`: the extension it gets, the number of filter devices that existed
when `QCacheAttachDevice` was entered, and the devices at the time of the call. -/
structure InitializeCall where
  extension : Option ℕ
  before : ℕ
  devices : List FilterDevice
deriving DecidableEq, Repr

/-- `QCacheAttachDevice`: the devices it leaves, the extension it assigns and the status it returns. -/
def qcacheAttachDevice (devices : List FilterDevice) (out : AttachOutcome) :
    List FilterDevice × Option ℕ × NtStatus :=
  if out.readOnlyDevice then (devices, none, STATUS_SUCCESS)
  else if ntSuccess out.createDevice then
    let filterDeviceExtension := some devices.length
    let device : FilterDevice := { attached := out.attachToDeviceStack }
    if !out.attachToDeviceStack then
      (devices ++ [device.cleanup.ioDeleteDevice], filterDeviceExtension, STATUS_SUCCESS)
    else if !out.directIo then
      (devices ++ [device.ioDetachDevice.cleanup.ioDeleteDevice], filterDeviceExtension, STATUS_SUCCESS)
    else if ntSuccess out.createSystemThread then
      (devices ++ [{ device with workerThread := true }], filterDeviceExtension, STATUS_SUCCESS)
    else
      (devices ++ [device.ioDetachDevice.cleanup.ioDeleteDevice], filterDeviceExtension, out.createSystemThread)
  -- A device object that cannot be created is a success, with nothing assigned.
  else (devices, none, STATUS_SUCCESS)

/-- The filter devices of the driver and the calls of `QCacheInitializeDevice` so far. -/
structure LegacyDevices where
  devices : List FilterDevice := []
  initialized : List InitializeCall := []
deriving DecidableEq, Repr

/-- `QCacheAttachLegacyDevice`; the status of `QCacheInitializeDevice` is not looked at. -/
def qcacheAttachLegacyDevice (legacy : LegacyDevices) (out : AttachOutcome) : LegacyDevices × NtStatus :=
  if ntSuccess out.getDeviceObjectPointer then
    let (devices, extension, status) := qcacheAttachDevice legacy.devices out
    if ntSuccess status then
      ({ devices, initialized := legacy.initialized ++ [⟨extension, legacy.devices.length, devices⟩] }, status)
    else ({ legacy with devices }, status)
  else (legacy, out.getDeviceObjectPointer)

/-- `DriverEntry` in its loop over the names. -/
structure DriverEntry where
  walk : AttachLoop
  legacy : LegacyDevices := {}
deriving DecidableEq, Repr

def DriverEntry.initial (dataLength : ℕ) : DriverEntry where
  walk := .initial dataLength

/-- One iteration. When the attach fails, `QCacheUnload` closes the key and the memory condition, touches no
device, and `DriverEntry` returns the status. -/
def driverEntryStep (data : RegistryData) (entry : DriverEntry) (out : AttachOutcome) : Option DriverEntry :=
  let (legacy, status) := qcacheAttachLegacyDevice entry.legacy out
  (attachStep data entry.walk status).map fun walk => { walk, legacy }

end QueueCache
