/-
The GRUB entries the suite boots (`Entry`, `ENTRIES` and `expects_boot` of `tests/conftest.py`), and which of them a session
is not expected to boot.

What the table depends on of a session is in `Setup`. A `pytest.mark.xfail` is its condition and its reason; it is strict.
-/
import DrtmTest.Machine

namespace DrtmTest.Entries

open DrtmTest.Environment

/-! ## The table -/

inductive Os where
  | xen
  | linux
  deriving DecidableEq

inductive Firmware where
  | dasharo
  | seabios
  deriving DecidableEq

structure Entry where
  title : String
  os : Os
  launch : Bool
  firmware : Firmware := .dasharo
  broken : Option String := none
  intelBroken : Option String := none
  amdOnly : Bool := false
  parameter : Option String := none
  prelude : List String := []
  devices : List String := []

def noPspDeviceId : ℕ := 0x1537

def noIntelIommu : String := "no CONFIG_INTEL_IOMMU: the VT-d PMRs stay on and block the disk"

def entryNames : List String :=
  ["xen_efi_launch", "xen_efi", "xen_mb2_launch", "linux_launch", "linux_legacy_launch", "linux_alt_launch",
    "xen_efi_debug_launch", "linux", "xen_mb2"]

/-- `ENTRIES`, for what `PSP` is -/
def entries (psp : Option String) : Dict String Entry where
  entries :=
    [("xen_efi_launch", { title := "Boot Xen with TrenchBoot (EFI)", os := .xen, launch := true }),
      ("xen_efi", { title := "Boot Xen normally (EFI)", os := .xen, launch := false }),
      ("xen_mb2_launch",
        { title := "Boot Xen with TrenchBoot (MB2)", os := .xen, launch := true, firmware := .seabios }),
      ("linux_launch",
        { title := "Boot Linux with TrenchBoot", os := .linux, launch := true
          broken := some "panics in check_timer: SKL entered startup_32, GIF never set"
          intelBroken := some "the decompressor wipes boot_params the EFI stub placed there" }),
      ("linux_legacy_launch",
        { title := "Boot Linux with TrenchBoot", os := .linux, launch := true, firmware := .seabios
          intelBroken := some noIntelIommu }),
      ("linux_alt_launch",
        { title := "Boot Linux with TrenchBoot", os := .linux, launch := true, firmware := .seabios
          parameter := some "drtmtest=alt", intelBroken := some noIntelIommu }),
      ("xen_efi_debug_launch",
        { title := "Boot Xen with TrenchBoot (EFI)", os := .xen, launch := true, amdOnly := true
          broken :=
            if psp = none then some "GRUB's debug print after exit_boot_services goes to the EFI console" else none
          prelude := ["set debug=slaunch"]
          devices :=
            if psp = none then
              ["-device", "amd-psp,device-id=0x" ++ String.ofList (Nat.toDigits 16 noPspDeviceId)]
            else [] }),
      ("linux", { title := "Boot Linux normally", os := .linux, launch := false }),
      ("xen_mb2", { title := "Boot Xen normally (MB2)", os := .xen, launch := false, firmware := .seabios })]
  nodup := (by decide : entryNames.Nodup)

/-! ## The session -/

/-- what `conftest.py` reads at its import, and what it asks of the image -/
structure Setup where
  vendor : String
  psp : Option String
  banks : List String
  /-- the image is an upstream release -/
  upstream : Bool
  /-- its master boot record carries GRUB -/
  legacyBootable : Bool

namespace Setup

variable (s : Setup)

/-- `_SKL` -/
def skl : Bool := s.vendor = "amd" && s.upstream

def otherBanks : Bool := s.skl && s.banks ≠ defaultBanks

end Setup

/-- why the session is not expected to boot the entry -/
def Entry.brokenReason (s : Setup) (entry : Entry) : Option String :=
  if entry.firmware = .seabios ∧ s.legacyBootable = false then
    some "the image has no legacy boot code, its wic carries the EFI boot alone"
  else if s.vendor = "intel" then if s.upstream then entry.intelBroken else none
  else if s.psp = some "classic" ∧ entry.launch = true ∧ entry.os = .linux then
    some "classic SKL: the kernel's extend fails at a locked locality, it panics"
  else if entry.broken ≠ none ∧ s.upstream = true then entry.broken
  else if s.otherBanks = true ∧ entry.launch = true ∧ entry.os = .linux then
    some "the upstream SKL logs SHA-1 and SHA-256 whatever the TPM has"
  else none

/-! ## Expected failures -/

structure Xfail where
  condition : Bool
  reason : String
  deriving DecidableEq

def expectsBoot (s : Setup) (entry : Entry) : Xfail where
  condition := (entry.brokenReason s).isSome
  reason := Machine.orElse (entry.brokenReason s) ""

end DrtmTest.Entries
