import Forge6809.Disk.Add

/-! # Transfers from and to devices

Contents and images come from devices that may fail, and go to devices that may fail. A failure of
the device is reported as it is, and the disk stays as it was. -/

namespace Forge6809.Disk

/-- Why a transfer ended early: the device failed with `ε`, or the disk refused with `κ`. -/
inductive TransferError (ε κ : Type) where
  | device (e : ε)
  | refused (e : κ)
deriving DecidableEq, Repr

def addFrom {ε : Type} (d : Disk) (contents : Except ε Bytes) (name : Bytes) (type : FileType)
    (mode : FileMode) : Except (TransferError ε Error) Placement × Disk :=
  match contents with
  | .error e => (.error (.device e), d)
  | .ok data =>
    match d.add ⟨name, type, mode, data⟩ with
    | (.error e, d) => (.error (.refused e), d)
    | (.ok p, d) => (.ok p, d)

/-- Replaces a disk by an image that comes from a device. -/
def unmarshalFrom {ε : Type} (d : Disk) (image : Except ε Bytes) :
    Except (TransferError ε Cause) Unit × Disk :=
  match image with
  | .error e => (.error (.device e), d)
  | .ok data =>
    match d.unmarshal data with
    | (.error e, d) => (.error (.refused e), d)
    | (.ok _, d) => (.ok (), d)

/-- How writing an image to a device ends. The device is closed even after a failed write, whose
failure is the one reported. -/
def writeOutcome {ε : Type} (create write close : Except ε Unit) : Except ε Unit := do
  create
  write
  close

end Forge6809.Disk
