import KbReg.Host.Transfer

namespace KbReg.Host

abbrev Path := ℕ

structure HidDeviceInfo where
  path : Path
  usage : UInt16
  usagePage : UInt16
  deriving DecidableEq, Repr

/-- What hidapi answers in one stretch of a run in which it answers the same question alike. -/
structure Hid where
  init : ℤ
  enumerate : UInt16 → UInt16 → List HidDeviceInfo
  openPath : Path → Bool
  manufacturer : Path → Option (List ℕ)
  product : Path → Option (List ℕ)

def rawUsageId : UInt16 := 0x61
def rawUsagePage : UInt16 := 0xFF60

def findRaw (usageId usagePage : UInt16) : List HidDeviceInfo → Option HidDeviceInfo
  | [] => none
  | i :: next =>
    if i.usage = usageId then
      if i.usagePage = usagePage then some i else findRaw usageId usagePage next
    else findRaw usageId usagePage next

variable (hid : Hid)

def ushort (n : ℤ) : UInt16 := UInt16.ofBitVec (BitVec.ofInt 16 n)

-- the path of the interface stands for the open handle
def openRaw (vendorId productId : ℤ) : Option Path :=
  match findRaw rawUsageId rawUsagePage (hid.enumerate (ushort vendorId) (ushort productId)) with
  | some info => if hid.openPath info.path then some info.path else none
  | none => none

def getVendor (dev : Path) : Except Stop (List ℕ) :=
  match hid.manufacturer dev with
  | none => .error (.exit 1)
  | some name => .ok name

def getProduct (dev : Path) : Except Stop (List ℕ) :=
  match hid.product dev with
  | none => .error (.exit 1)
  | some name => .ok name

end KbReg.Host
