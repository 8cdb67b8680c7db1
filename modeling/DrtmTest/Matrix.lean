/-
The boot matrix: the pinned releases (`drtmtest/trenchboot.py`), the vendors (`drtmtest/machine.py`) and the machine
configurations (`drtmtest/matrix.py`).
-/
import DrtmTest.Core.Dict

namespace DrtmTest.Matrix

/-- one machine configuration; no banks for the default two -/
structure Configuration where
  title : String
  psp : Bool
  banks : Option String
  vendor : String

def configurations : Dict String Configuration where
  entries :=
    [("classic", ⟨"Without PSP, TPM with SHA-1 and SHA-256", false, none, "amd"⟩),
      ("psp", ⟨"With PSP DRTM service, TPM with SHA-1 and SHA-256", true, none, "amd"⟩),
      ("sha256", ⟨"Without PSP, TPM with SHA-256 alone", false, some "sha256", "amd"⟩),
      ("psp-sha256", ⟨"With PSP DRTM service, TPM with SHA-256 alone", true, some "sha256", "amd"⟩),
      ("sha384", ⟨"Without PSP, TPM with SHA-1, SHA-256 and SHA-384", false, some "sha1,sha256,sha384", "amd"⟩),
      ("intel", ⟨"TPM with SHA-1 and SHA-256", false, none, "intel"⟩),
      ("intel-sha256", ⟨"TPM with SHA-256 alone", false, some "sha256", "intel"⟩),
      ("intel-sha384", ⟨"TPM with SHA-1, SHA-256 and SHA-384", false, some "sha1,sha256,sha384", "intel"⟩)]
  nodup := by decide

/-- the title the results give each vendor's configurations -/
def vendorTitles : Dict String String := ⟨[("amd", "AMD SKINIT"), ("intel", "Intel TXT")], by decide⟩

def vendors : List String := ["amd", "intel"]

/-- the tags of the pinned releases -/
def releases : List String := ["amd-drtm-test-image-5", "v0.5.2", "v0.5.3-rc1"]

/-- a pinned download (`drtmtest/assets.py`) -/
structure Asset where
  url : String
  sha256 : String

/-- one pinned image; on an upstream one some launches are expected to fail -/
structure Release where
  asset : Asset
  upstream : Bool

def imageUrl (owner tag : String) : String :=
  "https://github.com/" ++ owner ++ "/meta-trenchboot/releases/download/" ++ tag ++
    "/tb-full-image-genericx86-64.rootfs.wic.gz"

/-- `RELEASES` of `drtmtest/trenchboot.py` -/
def pinned : Dict String Release where
  entries :=
    [("amd-drtm-test-image-5",
        ⟨⟨imageUrl "iwanicki92" "amd-drtm-test-image-5",
          "69d146ca262f2fbf3532de5fcdaa8af3e5828afb90b8911e0e52c24fa2111424"⟩, false⟩),
      ("v0.5.2",
        ⟨⟨imageUrl "zarhus" "v0.5.2", "702276d64f8aa9633a6aef1c88767716311d733a1dcbede2ed9e4d7a1cb380ca"⟩, true⟩),
      ("v0.5.3-rc1",
        ⟨⟨imageUrl "zarhus" "v0.5.3-rc1",
          "3ae50150714d1591aefb961ce88515ca9b3a07bea2e0f3c9fcb7fa37e129ff0e"⟩, true⟩)]
  nodup := by decide

example : pinned.keys = releases := rfl

def defaultRelease : String := "amd-drtm-test-image-5"

end DrtmTest.Matrix
