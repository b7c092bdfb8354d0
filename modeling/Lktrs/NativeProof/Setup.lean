import Lktrs.NativeProof.CanonicalText
import Lktrs.NativeProof.KeyLayout
import Lktrs.NativeProof.SetupEncoding
import Lktrs.NativeProof.StrictJson

/-!
# Setup directories

`setup.go`: a setup is a directory with a manifest, the public parameters, a
verifying key and, unless it is a public one, a proving key. The caller pins the
digest of the manifest, and the manifest holds the digests of the other files.
`loadSetup` reads and checks them; `exportPublicSetup` copies what a verifier
needs into a new directory. Every file is read once, whole, and then used from
memory, so a directory is what its files contain at that time.
-/

set_option autoImplicit false

namespace Lktrs.NativeProof

open Lktrs.Foundation

def setupFormat : String := "lktrs/setup/v1"
def gnarkVersion : String := "v0.16.3"
def cryptoVersion : String := "v0.21.0"
def maxManifestBytes : ℕ := 2 ^ 20
def maxProvingKeyBytes : ℕ := 2 ^ 30

/-! ## Manifests -/

structure ArtifactDigest where
  sha256 : String
  size : ℤ
  deriving DecidableEq, Inhabited

structure CircuitDescriptor where
  sha256 : String
  constraints : ℤ
  publicVariables : ℤ
  secretVariables : ℤ
  internalVariables : ℤ
  commitments : ℤ
  deriving DecidableEq, Inhabited

structure SetupManifest where
  format : String
  profile : String
  setupKind : String
  pairingCurve : String
  standaloneCurve : String
  pairingScalarOrder : String
  standaloneScalarOrder : String
  gnark : String
  gnarkCrypto : String
  circuit : CircuitDescriptor
  capacity : ℤ
  parameters : ArtifactDigest
  provingKey : ArtifactDigest
  verifyingKey : ArtifactDigest
  deriving DecidableEq, Inhabited

def artifactDigestOf : GoValue → ArtifactDigest
  | .struct [.string sha256, .int size] => { sha256, size }
  | _ => default

def circuitDescriptorOf : GoValue → CircuitDescriptor
  | .struct [.string sha256, .int constraints, .int publicVariables, .int secretVariables,
      .int internalVariables, .int commitments] =>
      { sha256, constraints, publicVariables, secretVariables, internalVariables, commitments }
  | _ => default

def setupManifestOf : GoValue → SetupManifest
  | .struct [.string format, .string profile, .string setupKind, .string pairingCurve,
      .string standaloneCurve, .string pairingScalarOrder, .string standaloneScalarOrder,
      .string gnark, .string gnarkCrypto, circuit, .int capacity, parameters, provingKey,
      verifyingKey] =>
      { format, profile, setupKind, pairingCurve, standaloneCurve, pairingScalarOrder,
        standaloneScalarOrder, gnark, gnarkCrypto, circuit := circuitDescriptorOf circuit,
        capacity, parameters := artifactDigestOf parameters,
        provingKey := artifactDigestOf provingKey, verifyingKey := artifactDigestOf verifyingKey }
  | _ => default

/-! ## Files -/

/-- What stands under a name of a directory: a regular file, or a link, a device, a directory. -/
inductive FileNode where
  | regular (contents : List UInt8)
  | special
  deriving DecidableEq

/-- The contents of a directory. -/
abbrev Directory := String → Option FileNode

def readBoundedFile (dir : Directory) (name : String) (max : ℤ) : Except String (List UInt8) :=
  match dir name with
  | none => .error "no such file or directory"
  | some .special => .error "artifact must be a regular file, not a symlink or device"
  | some (.regular contents) => do
      rejectIf ((contents.length : ℤ) > max) "invalid or oversized artifact"
      return contents

def readArtifact (dir : Directory) (name : String) (ref : ArtifactDigest) (max : ℤ) :
    Except String (List UInt8) := do
  rejectIf (ref.size < 1 ∨ ref.size > max) s!"invalid {name} size"
  let digest ← parseDigest ref.sha256
  let raw ← readBoundedFile dir name ref.size
  rejectIf ((raw.length : ℤ) ≠ ref.size ∨ sha256 raw ≠ digest) s!"{name} digest or size mismatch"
  return raw

/-- The labels a manifest of this profile has. -/
def SetupManifest.supported (m : SetupManifest) : Bool :=
  m.format = setupFormat && m.profile = circuitVersion && m.setupKind = "local-single-party" &&
    m.pairingCurve = "bn254" && m.standaloneCurve = "secp256k1" &&
    m.pairingScalarOrder = toString bn254Fr && m.standaloneScalarOrder = toString secp256k1Fr &&
    m.gnark = gnarkVersion && m.gnarkCrypto = cryptoVersion && !(m.capacity < 1) &&
    !(m.capacity > 2 ^ 16)

/-- The checks of `readManifest` on the bytes of a manifest. -/
def decodeManifest (raw : List UInt8) : Except String SetupManifest := do
  let m := setupManifestOf (← strictJSON setupManifestType raw)
  rejectIf (m.supported = false) "unsupported setup manifest profile"
  [m.parameters, m.provingKey, m.verifyingKey].forM fun ref =>
    rejectIf ((parseDigest ref.sha256).isOk = false ∨ ref.size ≤ 0) "invalid manifest artifact"
  rejectIf (m.parameters.size > maxParamsBytes ∨ m.provingKey.size > maxProvingKeyBytes ∨
    m.verifyingKey.size > maxProofBytes) "manifest artifact exceeds size budget"
  let _ ← parseDigest m.circuit.sha256
  return m

def readManifest (dir : Directory) (pin : FixedBytes 32) :
    Except String (SetupManifest × List UInt8) := do
  rejectIf (pin = FixedBytes.zero 32) "trusted manifest digest required"
  let raw ← readBoundedFile dir "manifest.json" maxManifestBytes
  rejectIf (sha256 raw ≠ pin) "manifest digest mismatch"
  let m ← decodeManifest raw
  return (m, raw)

/-! ## Loading -/

section Loading

variable {lib : GnarkCrypto} {zk : Groth16} (codec : SetupCodec lib) (keys : KeyLibrary zk)

/-- What the source calls a loaded setup; the prover is nil for `LoadPublicSetup`. -/
structure SetupBundle (zk : Groth16) where
  parameters : Params
  prover : Option (Prover zk)
  verifier : Verifier zk
  manifest : SetupManifest

def describeCircuit (cs : zk.ConstraintSystem) : Except String CircuitDescriptor := do
  let system ← zk.writeSystem cs
  match keys.commitments cs with
  | none => .error "unsupported circuit commitments"
  | some commitments =>
      return { sha256 := hexDigest (sha256 system)
               constraints := keys.constraints cs
               publicVariables := keys.publicVariables cs
               secretVariables := keys.secretVariables cs
               internalVariables := keys.internalVariables cs
               commitments := commitments.length }

def loadVerifierForCircuit (key : List UInt8) (circuitHash keyID : FixedBytes 32)
    (cs : zk.ConstraintSystem) : Except String (Verifier zk) := do
  rejectIf (key.length > maxProofBytes ∨ sha256 key ≠ keyID) "verification key digest mismatch"
  let system ← zk.writeSystem cs
  rejectIf (circuitHash ≠ sha256 system) "circuit hash is not the compiled native profile"
  preflightVerifyingKey key
  let (vk, rest) ← keys.readVerifyingKey key
  rejectIf (rest.length ≠ 0) "trailing key bytes"
  match keys.commitments cs with
  | none => .error "wrong circuit commitment type"
  | some commitments => do
      rejectIf (keys.publicPoints vk ≠ keys.publicVariables cs + commitments.length ∨
          zk.commitmentKeys vk ≠ commitments.length ∨
          keys.verifyingLayout vk ≠ keys.committedLayout commitments (keys.publicVariables cs))
        "verification key public/commitment layout differs from circuit"
      return { vk, circuitHash, keyID }

/-- The texts of what stops the parameter decoder. -/
def Stop.text : Stop → String
  | .error text => text
  | .sliceOutOfRange => "slice bounds out of range"

/-- `ParseDigest` with its error dropped: the zero value stands for a refused text. -/
def digestOrZero (text : String) : FixedBytes 32 := (parseDigest text).toOption.getD (.zero 32)

/-- The part of `loadSetup` that both modes share, and the compiled circuit. -/
def loadPublicPart (dir : Directory) (pin : FixedBytes 32) :
    Except String (SetupBundle zk × zk.ConstraintSystem) := do
  let (m, _) ← readManifest dir pin
  let raw ← readArtifact dir "parameters.bin" m.parameters maxParamsBytes
  let params ← (unmarshalParams codec raw).mapError Stop.text
  rejectIf ((params.powers.length : ℤ) - 1 ≠ m.capacity) "parameter capacity mismatch"
  let key ← readArtifact dir "vk.bin" m.verifyingKey maxProofBytes
  preflightVerifyingKey key
  let cs ← zk.compile
  let descriptor ← describeCircuit keys cs
  rejectIf (descriptor ≠ m.circuit) "manifest circuit differs from locally compiled circuit"
  let verifier ← loadVerifierForCircuit keys key (digestOrZero m.circuit.sha256)
    (digestOrZero m.verifyingKey.sha256) cs
  return ({ parameters := params, prover := none, verifier, manifest := m }, cs)

/-- The proving key that `loadSetup` accepts beside a loaded public part. -/
def loadProvingKey (dir : Directory) (loaded : SetupBundle zk) (cs : zk.ConstraintSystem) :
    Except String zk.ProvingKey := do
  let raw ← readArtifact dir "pk.bin" loaded.manifest.provingKey maxProvingKeyBytes
  wrapError "PK layout: " (preflightProvingKey keys raw cs)
  let (pk, rest) ← keys.readProvingKey raw
  rejectIf (rest.length ≠ 0) "trailing PK bytes"
  rejectIf (keys.provingPoints pk ≠ keys.verifyingPoints loaded.verifier.vk)
    "PK/VK setup points differ"
  return pk

def loadSetup (dir : Directory) (pin : FixedBytes 32) (withProver : Bool) :
    Except String (SetupBundle zk) := do
  let (result, cs) ← loadPublicPart codec keys dir pin
  if withProver = false then
    return result
  else
    let pk ← loadProvingKey keys dir result cs
    return { result with
      prover := some { cs, pk, circuitHash := digestOrZero result.manifest.circuit.sha256
                       keyID := digestOrZero result.manifest.verifyingKey.sha256 } }

def loadPublicSetup (dir : Directory) (pin : FixedBytes 32) : Except String (SetupBundle zk) :=
  loadSetup codec keys dir pin false

/-! ## Exporting -/

/-- The directories of the machine, by path. -/
abbrev FileSystem := String → Option Directory

/-- How the system calls of an export end. -/
structure SystemCalls where
  /-- Making the parent and the temporary directory. -/
  prepare : Except String Unit
  /-- Opening, writing and synchronising one file. -/
  write : String → Except String Unit
  /-- Synchronising, renaming, and synchronising the parent. -/
  install : Except String Unit

/-- `writeArtifact` into a directory under construction; a name is taken only once. -/
def writeArtifact (calls : SystemCalls) (tmp : Directory) (name : String) (data : List UInt8)
    (max : ℕ) : Except String Directory := do
  rejectIf (tmp name ≠ none) "file exists"
  rejectIf (data.length > max) "artifact exceeds size budget"
  calls.write name
  return Function.update tmp name (some (.regular data))

/-- `newBundle`: the directory appears under its path with all its files, or not at all. -/
def newBundle (calls : SystemCalls) (fs : FileSystem) (path : String)
    (fill : Directory → Except String Directory) : Except String FileSystem := do
  rejectIf (fs path ≠ none) "output bundle already exists or cannot be inspected"
  calls.prepare
  let tmp ← fill fun _ => none
  calls.install
  return Function.update fs path (some tmp)

/-- The directory under a path; a missing one has no files. -/
def FileSystem.directory (fs : FileSystem) (path : String) : Directory :=
  (fs path).getD fun _ => none

def exportPublicSetup (calls : SystemCalls) (fs : FileSystem) (src dst : String)
    (pin : FixedBytes 32) : Except String FileSystem := do
  let dir := fs.directory src
  let _ ← loadPublicSetup codec keys dir pin
  let (m, manifest) ← readManifest dir pin
  let pp ← readArtifact dir "parameters.bin" m.parameters maxParamsBytes
  let vk ← readArtifact dir "vk.bin" m.verifyingKey maxProofBytes
  newBundle calls fs dst fun tmp =>
    [("manifest.json", manifest), ("parameters.bin", pp), ("vk.bin", vk)].foldlM
      (fun tmp f => writeArtifact calls tmp f.1 f.2 f.2.length) tmp

end Loading

end Lktrs.NativeProof
