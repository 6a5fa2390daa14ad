import PatchGraph.Digest.Sha256
import PatchGraph.Registry.Manifest

/-!
# Provenance

What a program was made from: the digest of the patch and that of the registry, each over its canonical text, so that neither the order
of members nor blanks in the files matter.
-/

namespace PatchGraph

/-- The version of the compiler. -/
def compilerVersion : String := "0.3.0"

/-- What a program was made from. -/
structure Provenance where
  patchHash : String
  registryFingerprint : String
  deriving DecidableEq

namespace Provenance

/-- What a program made from a patch and a registry is made from. -/
def of (p : Patch) (r : Registry) : Provenance := ⟨Sha256.hex p.canonicalText, Sha256.hex r.canonicalText⟩

/-- Provenance in a data file. -/
def toJson (p : Provenance) : Json :=
  .obj [("patch_hash", .str p.patchHash), ("registry_fingerprint", .str p.registryFingerprint),
    ("manifest_schema_version", .nat 1), ("compiler_version", .str compilerVersion)]

/-- The text of provenance. -/
def text (p : Provenance) : String := p.toJson.pretty ++ "\n"

end Provenance

end PatchGraph
