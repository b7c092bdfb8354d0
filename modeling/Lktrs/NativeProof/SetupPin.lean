import Lktrs.NativeProof.ProvingScan
import Lktrs.NativeProof.Service
import Lktrs.NativeProof.Setup

/-!
# A setup is determined by its pin

The pin is the digest of the manifest, and the manifest holds the digest of every
other file that is used. So two directories that load under one pin hold the same
files, as far as digests tell files apart, and everything else of a loaded setup
is computed from those bytes (`setup_pinned`). The same chain makes an exported
public setup load like the one it was copied from.
-/

set_option autoImplicit false

namespace Lktrs.NativeProof

open Lktrs.Foundation

/-! ## What the readers return -/

section Readers

variable {dir : Directory} {name : String} {raw : List UInt8} {pin : FixedBytes 32}

theorem readBoundedFile_eq_ok {max : ℤ} :
    readBoundedFile dir name max = .ok raw ↔
      dir name = some (.regular raw) ∧ (raw.length : ℤ) ≤ max := by
  unfold readBoundedFile
  cases hfile : dir name with
  | none => simp
  | some node =>
      cases node with
      | special => simp
      | regular contents =>
          simp only [bind_eq_ok, rejectIf_eq_ok, pure_eq_ok, not_lt, Option.some.injEq,
            FileNode.regular.injEq, gt_iff_lt]
          constructor
          · rintro ⟨_, hlen, rfl⟩
            exact ⟨rfl, hlen⟩
          · rintro ⟨rfl, hlen⟩
            exact ⟨(), hlen, rfl⟩

/-- An artifact is a file with the size and the digest its reference gives. -/
theorem readArtifact_eq_ok {ref : ArtifactDigest} {max : ℤ} :
    readArtifact dir name ref max = .ok raw ↔
      (1 ≤ ref.size ∧ ref.size ≤ max) ∧ dir name = some (.regular raw) ∧
        (raw.length : ℤ) = ref.size ∧ parseDigest ref.sha256 = .ok (sha256 raw) := by
  simp only [readArtifact, bind_eq_ok, rejectIf_eq_ok, pure_eq_ok, readBoundedFile_eq_ok, not_or,
    not_lt, not_not, gt_iff_lt]
  constructor
  · rintro ⟨_, hsize, digest, hdigest, raw', ⟨hfile, _⟩, _, ⟨hlen, hsha⟩, rfl⟩
    exact ⟨hsize, hfile, hlen, hsha ▸ hdigest⟩
  · rintro ⟨hsize, hfile, hlen, hdigest⟩
    exact ⟨(), hsize, _, hdigest, raw, ⟨hfile, hlen.le⟩, (), ⟨hlen, rfl⟩, rfl⟩

/-- What is accepted as a manifest. -/
theorem decodeManifest_eq_ok {m : SetupManifest} :
    decodeManifest raw = .ok m ↔
      ∃ v, strictJSON setupManifestType raw = .ok v ∧ setupManifestOf v = m ∧ m.supported = true ∧
        (∀ ref ∈ [m.parameters, m.provingKey, m.verifyingKey],
          (parseDigest ref.sha256).isOk = true ∧ 0 < ref.size) ∧
        (m.parameters.size ≤ maxParamsBytes ∧ m.provingKey.size ≤ maxProvingKeyBytes ∧
          m.verifyingKey.size ≤ maxProofBytes) ∧
        ∃ digest, parseDigest m.circuit.sha256 = .ok digest := by
  simp only [decodeManifest, bind_eq_ok, forM_eq_ok, rejectIf_eq_ok, pure_eq_ok, not_or, not_lt,
    not_le, Bool.not_eq_false, gt_iff_lt]
  constructor
  · rintro ⟨v, hv, _, hsupported, _, hrefs, _, hsizes, digest, hdigest, rfl⟩
    exact ⟨v, hv, rfl, hsupported, hrefs, hsizes, digest, hdigest⟩
  · rintro ⟨v, hv, rfl, hsupported, hrefs, hsizes, digest, hdigest⟩
    exact ⟨v, hv, (), hsupported, (), hrefs, (), hsizes, digest, hdigest, rfl⟩

theorem readManifest_eq_ok {m : SetupManifest} :
    readManifest dir pin = .ok (m, raw) ↔
      pin ≠ FixedBytes.zero 32 ∧ dir "manifest.json" = some (.regular raw) ∧
        (raw.length : ℤ) ≤ maxManifestBytes ∧ sha256 raw = pin ∧ decodeManifest raw = .ok m := by
  simp only [readManifest, bind_eq_ok, rejectIf_eq_ok, pure_eq_ok, readBoundedFile_eq_ok, not_not,
    Prod.mk.injEq]
  constructor
  · rintro ⟨_, hpin, raw', ⟨hfile, hlen⟩, _, hsha, m', hm, rfl, rfl⟩
    exact ⟨hpin, hfile, hlen, hsha, hm⟩
  · rintro ⟨hpin, hfile, hlen, hsha, hm⟩
    exact ⟨(), hpin, raw, ⟨hfile, hlen⟩, (), hsha, m, hm, rfl, rfl⟩

end Readers

/-! ## Two directories under one pin -/

/-- The contents of the regular files of a directory. -/
def Directory.contents (dir : Directory) : Set (List UInt8) :=
  {raw | ∃ name, dir name = some (.regular raw)}

section Pinned

variable {lib : GnarkCrypto} {zk : Groth16} {codec : SetupCodec lib} {keys : KeyLibrary zk}
variable {dir₁ dir₂ : Directory} {pin : FixedBytes 32}

/-- Files with one digest, one in each directory, are the same. -/
theorem file_pinned (hsha : Set.InjOn sha256 (dir₁.contents ∪ dir₂.contents))
    {name₁ name₂ : String} {raw₁ raw₂ : List UInt8} (h₁ : dir₁ name₁ = some (.regular raw₁))
    (h₂ : dir₂ name₂ = some (.regular raw₂)) (hdigest : sha256 raw₁ = sha256 raw₂) :
    raw₁ = raw₂ :=
  hsha (.inl ⟨name₁, h₁⟩) (.inr ⟨name₂, h₂⟩) hdigest

theorem manifest_pinned (hsha : Set.InjOn sha256 (dir₁.contents ∪ dir₂.contents))
    {out₁ out₂ : SetupManifest × List UInt8} (h₁ : readManifest dir₁ pin = .ok out₁)
    (h₂ : readManifest dir₂ pin = .ok out₂) : out₁ = out₂ := by
  obtain ⟨m₁, raw₁⟩ := out₁
  obtain ⟨m₂, raw₂⟩ := out₂
  obtain ⟨_, hfile₁, _, hpin₁, hm₁⟩ := readManifest_eq_ok.1 h₁
  obtain ⟨_, hfile₂, _, hpin₂, hm₂⟩ := readManifest_eq_ok.1 h₂
  obtain rfl := file_pinned hsha hfile₁ hfile₂ (hpin₁.trans hpin₂.symm)
  obtain rfl := Except.ok.inj (hm₁.symm.trans hm₂)
  rfl

theorem artifact_pinned (hsha : Set.InjOn sha256 (dir₁.contents ∪ dir₂.contents))
    {name : String} {ref : ArtifactDigest} {max : ℤ} {raw₁ raw₂ : List UInt8}
    (h₁ : readArtifact dir₁ name ref max = .ok raw₁)
    (h₂ : readArtifact dir₂ name ref max = .ok raw₂) : raw₁ = raw₂ := by
  obtain ⟨_, hfile₁, _, hdigest₁⟩ := readArtifact_eq_ok.1 h₁
  obtain ⟨_, hfile₂, _, hdigest₂⟩ := readArtifact_eq_ok.1 h₂
  exact file_pinned hsha hfile₁ hfile₂ (Except.ok.inj (hdigest₁.symm.trans hdigest₂))

/-- What a directory is loaded as, given the bytes of the three files. -/
def assemblePublicPart (codec : SetupCodec lib) (keys : KeyLibrary zk) (m : SetupManifest)
    (raw key : List UInt8) : Except String (SetupBundle zk × zk.ConstraintSystem) := do
  let params ← (unmarshalParams codec raw).mapError Stop.text
  rejectIf ((params.powers.length : ℤ) - 1 ≠ m.capacity) "parameter capacity mismatch"
  preflightVerifyingKey key
  let cs ← zk.compile
  let descriptor ← describeCircuit keys cs
  rejectIf (descriptor ≠ m.circuit) "manifest circuit differs from locally compiled circuit"
  let verifier ← loadVerifierForCircuit keys key (digestOrZero m.circuit.sha256)
    (digestOrZero m.verifyingKey.sha256) cs
  return ({ parameters := params, prover := none, verifier, manifest := m }, cs)

theorem loadPublicPart_eq_ok {dir : Directory} {out : SetupBundle zk × zk.ConstraintSystem} :
    loadPublicPart codec keys dir pin = .ok out ↔
      ∃ m manifest raw key, readManifest dir pin = .ok (m, manifest) ∧
        readArtifact dir "parameters.bin" m.parameters maxParamsBytes = .ok raw ∧
        readArtifact dir "vk.bin" m.verifyingKey maxProofBytes = .ok key ∧
        assemblePublicPart codec keys m raw key = .ok out := by
  simp only [loadPublicPart, assemblePublicPart, bind_eq_ok, Prod.exists]
  constructor
  · rintro ⟨m, manifest, hm, raw, hraw, params, hparams, u, hcap, key, hkey, rest⟩
    exact ⟨m, manifest, raw, key, hm, hraw, hkey, params, hparams, u, hcap, rest⟩
  · rintro ⟨m, manifest, raw, key, hm, hraw, hkey, params, hparams, u, hcap, rest⟩
    exact ⟨m, manifest, hm, raw, hraw, params, hparams, u, hcap, key, hkey, rest⟩

theorem publicPart_pinned (hsha : Set.InjOn sha256 (dir₁.contents ∪ dir₂.contents))
    {out₁ out₂ : SetupBundle zk × zk.ConstraintSystem}
    (h₁ : loadPublicPart codec keys dir₁ pin = .ok out₁)
    (h₂ : loadPublicPart codec keys dir₂ pin = .ok out₂) : out₁ = out₂ := by
  obtain ⟨m, manifest, raw, key, hm, hraw, hkey, hout⟩ := loadPublicPart_eq_ok.1 h₁
  obtain ⟨m', manifest', raw', key', hm', hraw', hkey', hout'⟩ := loadPublicPart_eq_ok.1 h₂
  obtain ⟨rfl, rfl⟩ := Prod.mk.inj (manifest_pinned hsha hm hm')
  obtain rfl := artifact_pinned hsha hraw hraw'
  obtain rfl := artifact_pinned hsha hkey hkey'
  exact Except.ok.inj (hout.symm.trans hout')

theorem provingKey_pinned (hsha : Set.InjOn sha256 (dir₁.contents ∪ dir₂.contents))
    {b : SetupBundle zk} {cs : zk.ConstraintSystem} {pk₁ pk₂ : zk.ProvingKey}
    (h₁ : loadProvingKey keys dir₁ b cs = .ok pk₁) (h₂ : loadProvingKey keys dir₂ b cs = .ok pk₂) :
    pk₁ = pk₂ := by
  obtain ⟨raw, hraw, hpk₁⟩ := bind_eq_ok.1 h₁
  obtain ⟨raw', hraw', hpk₂⟩ := bind_eq_ok.1 h₂
  obtain rfl := artifact_pinned hsha hraw hraw'
  exact Except.ok.inj (hpk₁.symm.trans hpk₂)

/-- A loaded setup is the public part, and with a prover its proving key beside it. -/
theorem loadSetup_eq_ok {dir : Directory} {withProver : Bool} {b : SetupBundle zk} :
    loadSetup codec keys dir pin withProver = .ok b ↔
      ∃ base cs, loadPublicPart codec keys dir pin = .ok (base, cs) ∧
        ((withProver = false ∧ b = base) ∨
          withProver = true ∧ ∃ pk, loadProvingKey keys dir base cs = .ok pk ∧
            b = { base with
              prover := some ⟨cs, pk, digestOrZero base.manifest.circuit.sha256,
                digestOrZero base.manifest.verifyingKey.sha256⟩ }) := by
  simp only [loadSetup, bind_eq_ok, Prod.exists]
  refine exists₂_congr fun base cs => and_congr_right fun _ => ?_
  cases withProver with
  | false => simp [eq_comm (a := b)]
  | true => simp [eq_comm (a := b)]

theorem loadProvingKey_eq_ok {dir : Directory} {b : SetupBundle zk} {cs : zk.ConstraintSystem}
    {pk : zk.ProvingKey} :
    loadProvingKey keys dir b cs = .ok pk ↔
      ∃ raw, readArtifact dir "pk.bin" b.manifest.provingKey maxProvingKeyBytes = .ok raw ∧
        preflightProvingKey keys raw cs = .ok () ∧ keys.readProvingKey raw = .ok (pk, []) ∧
        keys.provingPoints pk = keys.verifyingPoints b.verifier.vk := by
  simp only [loadProvingKey, bind_eq_ok, pure_eq_ok, rejectIf_eq_ok, wrapError_eq_ok, Prod.exists]
  constructor
  · rintro ⟨raw, hraw, ⟨⟩, hlayout, pk, rest, hread, _, hrest, _, hpoints, rfl⟩
    obtain rfl := List.eq_nil_of_length_eq_zero (not_not.1 hrest)
    exact ⟨raw, hraw, hlayout, hread, not_not.1 hpoints⟩
  · rintro ⟨raw, hraw, hlayout, hread, hpoints⟩
    exact ⟨raw, hraw, (), hlayout, pk, [], hread, (), not_not.2 rfl, (), not_not.2 hpoints, rfl⟩

theorem loadVerifierForCircuit_ids {key : List UInt8} {circuitHash keyID : FixedBytes 32}
    {cs : zk.ConstraintSystem} {v : Verifier zk}
    (h : loadVerifierForCircuit keys key circuitHash keyID cs = .ok v) :
    v.circuitHash = circuitHash ∧ v.keyID = keyID := by
  simp only [loadVerifierForCircuit, bind_eq_ok, Prod.exists] at h
  obtain ⟨_, _, _, _, _, _, _, _, vk, _, _, _, _, h⟩ := h
  cases hcommitments : keys.commitments cs with
  | none => simp [hcommitments] at h
  | some commitments =>
      simp only [hcommitments, bind_eq_ok, pure_eq_ok] at h
      obtain ⟨_, _, rfl⟩ := h
      exact ⟨rfl, rfl⟩

/-- The public part carries no prover, its parameters are valid, and its verifier has the digests
the manifest gives. -/
structure PublicPart (lib : GnarkCrypto) (b : SetupBundle zk) : Prop where
  prover : b.prover = none
  valid : validateParams lib b.parameters = .ok ()
  circuitHash : b.verifier.circuitHash = digestOrZero b.manifest.circuit.sha256
  keyID : b.verifier.keyID = digestOrZero b.manifest.verifyingKey.sha256

theorem loadPublicPart_spec {dir : Directory} {base : SetupBundle zk} {cs : zk.ConstraintSystem}
    (h : loadPublicPart codec keys dir pin = .ok (base, cs)) : PublicPart lib base := by
  obtain ⟨m, manifest, raw, key, _, _, _, hout⟩ := loadPublicPart_eq_ok.1 h
  simp only [assemblePublicPart, bind_eq_ok, pure_eq_ok, Prod.mk.injEq] at hout
  obtain ⟨params, hparams, _, _, _, _, _, _, _, _, _, _, v, hv, rfl, _⟩ := hout
  obtain ⟨hcircuit, hkey⟩ := loadVerifierForCircuit_ids hv
  have hdecoded : unmarshalParams codec raw = .ok params := mapError_eq_ok.1 hparams
  exact ⟨rfl, (unmarshalParams_eq_ok.1 hdecoded).1, hcircuit, hkey⟩

/-- Two loads under one pin agree, whatever their modes. -/
theorem loadSetup_pinned (hsha : Set.InjOn sha256 (dir₁.contents ∪ dir₂.contents))
    {mode₁ mode₂ : Bool} {b₁ b₂ : SetupBundle zk}
    (h₁ : loadSetup codec keys dir₁ pin mode₁ = .ok b₁)
    (h₂ : loadSetup codec keys dir₂ pin mode₂ = .ok b₂) :
    b₁.manifest = b₂.manifest ∧ b₁.parameters = b₂.parameters ∧ b₁.verifier = b₂.verifier ∧
      ∀ p₁ p₂, b₁.prover = some p₁ → b₂.prover = some p₂ → p₁ = p₂ := by
  obtain ⟨base, cs, hbase₁, hmode₁⟩ := loadSetup_eq_ok.1 h₁
  obtain ⟨base', cs', hbase₂, hmode₂⟩ := loadSetup_eq_ok.1 h₂
  obtain ⟨rfl, rfl⟩ := Prod.mk.inj (publicPart_pinned hsha hbase₁ hbase₂)
  have hnone := (loadPublicPart_spec hbase₁).prover
  -- only two bundles with a prover have more to compare than the public part
  rcases hmode₁ with ⟨_, rfl⟩ | ⟨_, pk₁, hpk₁, rfl⟩
  · have hprover (p₁ : Prover zk) : b₁.prover ≠ some p₁ := by
      rw [hnone]
      exact nofun
    rcases hmode₂ with ⟨_, rfl⟩ | ⟨_, pk₂, hpk₂, rfl⟩
    · exact ⟨rfl, rfl, rfl, fun p₁ _ hp₁ => absurd hp₁ (hprover p₁)⟩
    · exact ⟨rfl, rfl, rfl, fun p₁ _ hp₁ => absurd hp₁ (hprover p₁)⟩
  · rcases hmode₂ with ⟨_, rfl⟩ | ⟨_, pk₂, hpk₂, rfl⟩
    · refine ⟨rfl, rfl, rfl, ?_⟩
      intro p₁ p₂ _ hp₂
      rw [hnone] at hp₂
      cases hp₂
    · obtain rfl := provingKey_pinned hsha hpk₁ hpk₂
      refine ⟨rfl, rfl, rfl, ?_⟩
      intro p₁ p₂ hp₁ hp₂
      exact Option.some.inj (hp₁.symm.trans hp₂)

/-- What `LoadSetup` returns is a setup the service can be started with. -/
theorem loadSetup_loadedSetup {dir : Directory} {b : SetupBundle zk}
    (h : loadSetup codec keys dir pin true = .ok b) :
    ∃ loaded : LoadedSetup lib zk, loaded.parameters = b.parameters ∧
      b.prover = some loaded.prover ∧ loaded.verifier = b.verifier := by
  obtain ⟨base, cs, hbase, hmode⟩ := loadSetup_eq_ok.1 h
  have hspec := loadPublicPart_spec hbase
  rcases hmode with ⟨hfalse, _⟩ | ⟨_, pk, _, rfl⟩
  · cases hfalse
  · exact ⟨⟨base.parameters, _, base.verifier, hspec.valid, hspec.circuitHash.symm,
      hspec.keyID.symm⟩, rfl, rfl, rfl⟩

end Pinned

/-! ## Exported directories -/

section Exported

variable {lib : GnarkCrypto} {zk : Groth16} {codec : SetupCodec lib} {keys : KeyLibrary zk}
variable {pin : FixedBytes 32}

/-- Loading a public setup looks at three names only. -/
theorem loadPublicSetup_congr {dir dir' : Directory}
    (hmanifest : dir' "manifest.json" = dir "manifest.json")
    (hparams : dir' "parameters.bin" = dir "parameters.bin") (hkey : dir' "vk.bin" = dir "vk.bin") :
    loadPublicSetup codec keys dir' pin = loadPublicSetup codec keys dir pin := by
  have hpart : loadPublicPart codec keys dir' pin = loadPublicPart codec keys dir pin := by
    simp only [loadPublicPart, readManifest, readArtifact, readBoundedFile, hmanifest, hparams, hkey]
  simp only [loadPublicSetup, loadSetup, hpart, if_true]

theorem writeArtifact_eq_ok {calls : SystemCalls} {tmp tmp' : Directory} {name : String}
    {data : List UInt8} {max : ℕ} (h : writeArtifact calls tmp name data max = .ok tmp') :
    tmp' = Function.update tmp name (some (.regular data)) := by
  simp only [writeArtifact, bind_eq_ok, pure_eq_ok] at h
  obtain ⟨_, _, _, _, _, _, rfl⟩ := h
  rfl

/-- A successful export leaves the source as it is and holds the three files it read there. -/
theorem exportPublicSetup_files {calls : SystemCalls} {fs fs' : FileSystem} {src dst : String}
    (h : exportPublicSetup codec keys calls fs src dst pin = .ok fs') :
    (∃ b, loadPublicSetup codec keys (fs.directory src) pin = .ok b) ∧
      fs'.directory src = fs.directory src ∧
      ∀ name ∈ ["manifest.json", "parameters.bin", "vk.bin"],
        fs'.directory dst name = fs.directory src name := by
  simp only [exportPublicSetup, newBundle, bind_eq_ok, rejectIf_eq_ok, pure_eq_ok, not_not,
    List.foldlM_cons, List.foldlM_nil, Prod.exists] at h
  obtain ⟨b, hload, m, manifest, hm, pp, hpp, vk, hvk, _, habsent, _, _, tmp, hfill, _, _, rfl⟩ := h
  obtain ⟨tmp₁, hwrite₁, tmp₂, hwrite₂, tmp₃, hwrite₃, rfl⟩ := hfill
  obtain rfl := writeArtifact_eq_ok hwrite₁
  obtain rfl := writeArtifact_eq_ok hwrite₂
  obtain rfl := writeArtifact_eq_ok hwrite₃
  obtain ⟨_, hmanifest, _⟩ := readManifest_eq_ok.1 hm
  obtain ⟨_, hparams, _⟩ := readArtifact_eq_ok.1 hpp
  obtain ⟨_, hkey, _⟩ := readArtifact_eq_ok.1 hvk
  -- the source holds a manifest, so it is not the path that was free
  have hne : src ≠ dst := by
    rintro rfl
    rw [FileSystem.directory, habsent] at hmanifest
    cases hmanifest
  refine ⟨⟨b, hload⟩, ?_, ?_⟩
  · rw [FileSystem.directory, Function.update_of_ne hne]
    rfl
  · intro name hname
    simp only [List.mem_cons, List.not_mem_nil, or_false] at hname
    rw [FileSystem.directory, Function.update_self, Option.getD_some]
    rcases hname with rfl | rfl | rfl
    · rw [hmanifest]
      rfl
    · rw [hparams]
      rfl
    · rw [hkey]
      rfl

theorem loadPublicSetup_exported {calls : SystemCalls} {fs fs' : FileSystem} {src dst : String}
    (h : exportPublicSetup codec keys calls fs src dst pin = .ok fs') :
    loadPublicSetup codec keys (fs'.directory dst) pin =
      loadPublicSetup codec keys (fs.directory src) pin := by
  obtain ⟨_, _, hfiles⟩ := exportPublicSetup_files h
  exact loadPublicSetup_congr (hfiles _ (by simp)) (hfiles _ (by simp)) (hfiles _ (by simp))

/-- A source that loads is exported when the destination is free and all system calls succeed. -/
theorem exportPublicSetup_isOk {calls : SystemCalls} {fs : FileSystem} {src dst : String}
    {b : SetupBundle zk} (hload : loadPublicSetup codec keys (fs.directory src) pin = .ok b)
    (hfree : fs dst = none) (hprepare : calls.prepare = .ok ())
    (hwrite : ∀ name, calls.write name = .ok ()) (hinstall : calls.install = .ok ()) :
    ∃ fs', exportPublicSetup codec keys calls fs src dst pin = .ok fs' := by
  obtain ⟨base, cs, hbase, -⟩ := loadSetup_eq_ok.1 hload
  obtain ⟨m, manifest, raw, key, hm, hraw, hkey, -⟩ := loadPublicPart_eq_ok.1 hbase
  simp [exportPublicSetup, newBundle, writeArtifact, hload, hm, hraw, hkey, hfree, hprepare,
    hwrite, hinstall, rejectIf_of_not, ok_bind]

/-- **The manifest pin alone determines a loaded setup.** Let two directories, with whatever files,
load under one pin, each as a full or as a public setup. If SHA-256 tells the files of the two
apart, the loaded setups have the same manifest, parameters and verifier, and the same prover when
both have one. Circuit compilation and key decoding are functions of their input here. Whenever an
export succeeds, the new directory loads under the pin as a public setup, with the result of
loading the source, before and after the export. -/
theorem setup_pinned (codec : SetupCodec lib) (keys : KeyLibrary zk) (pin : FixedBytes 32) :
    (∀ dir₁ dir₂ : Directory, Set.InjOn sha256 (dir₁.contents ∪ dir₂.contents) →
      ∀ mode₁ mode₂ b₁ b₂, loadSetup codec keys dir₁ pin mode₁ = .ok b₁ →
        loadSetup codec keys dir₂ pin mode₂ = .ok b₂ →
        b₁.manifest = b₂.manifest ∧ b₁.parameters = b₂.parameters ∧ b₁.verifier = b₂.verifier ∧
          ∀ p₁ p₂, b₁.prover = some p₁ → b₂.prover = some p₂ → p₁ = p₂) ∧
    ∀ calls fs fs' src dst, exportPublicSetup codec keys calls fs src dst pin = .ok fs' →
      ∃ b, loadPublicSetup codec keys (fs'.directory dst) pin = .ok b ∧
        loadPublicSetup codec keys (fs.directory src) pin = .ok b ∧
        loadPublicSetup codec keys (fs'.directory src) pin = .ok b := by
  refine ⟨?_, ?_⟩
  · intro dir₁ dir₂ hsha mode₁ mode₂ b₁ b₂ h₁ h₂
    exact loadSetup_pinned hsha h₁ h₂
  · intro calls fs fs' src dst h
    obtain ⟨⟨b, hb⟩, hsrc, _⟩ := exportPublicSetup_files h
    refine ⟨b, ?_, hb, ?_⟩
    · rw [loadPublicSetup_exported h]
      exact hb
    · rw [hsrc]
      exact hb

end Exported

/-! ## A sample setup -/

/-- The library of the sample circuit without its commitment, which reads every key. -/
def pinKeys : KeyLibrary sampleGroth16 :=
  { ProvingScan.sampleKeys with
    commitments := fun _ => some []
    committedLayout := fun _ _ => []
    verifyingLayout := fun _ => []
    readVerifyingKey := fun _ => .ok ((), [])
    readProvingKey := fun _ => .ok ((), []) }

open ProvingScan (infinityPoint infinityVector)

/-- A file of a setup, within the bound of its kind. -/
structure BoundedFile (max : ℕ) where
  raw : List UInt8
  sized : 0 < raw.length ∧ raw.length ≤ max

/-- A verifying key with one public point and no commitments. -/
def pinVerifyingKey : BoundedFile maxProofBytes where
  raw := infinityPoint 32 ++ infinityPoint 32 ++ infinityPoint 64 ++ infinityPoint 64 ++
    infinityPoint 32 ++ infinityPoint 64 ++ infinityVector 1 32 ++ bigEndian 4 0 ++ bigEndian 4 0
  sized := by decide +kernel

def pinProvingKey : BoundedFile maxProvingKeyBytes where
  raw := List.replicate domainSize 0 ++ (List.replicate 3 (infinityPoint 32)).flatten ++
    infinityVector 0 32 ++ infinityVector 0 32 ++ infinityVector 0 32 ++ infinityVector 2 32 ++
    (List.replicate 2 (infinityPoint 64)).flatten ++ infinityVector 0 64 ++
    bigEndian 8 3 ++ bigEndian 8 3 ++ bigEndian 8 3 ++ [1, 1, 1] ++ [1, 1, 1] ++ bigEndian 4 0
  sized := by decide +kernel

def pinParameters : BoundedFile maxParamsBytes where
  raw := (marshalParams sampleCodec sampleParams).toOption.getD []
  sized := by decide +kernel

/-- The reference of a manifest to a file. -/
def artifactOf (raw : List UInt8) : ArtifactDigest := ⟨hexDigest (sha256 raw), raw.length⟩

def ArtifactDigest.value (ref : ArtifactDigest) : GoValue :=
  .struct [.string ref.sha256, .int ref.size]

/-- The manifest of the three files. -/
def pinSetup : SetupManifest where
  format := setupFormat
  profile := circuitVersion
  setupKind := "local-single-party"
  pairingCurve := "bn254"
  standaloneCurve := "secp256k1"
  pairingScalarOrder := toString bn254Fr
  standaloneScalarOrder := toString secp256k1Fr
  gnark := gnarkVersion
  gnarkCrypto := cryptoVersion
  circuit := ⟨hexDigest (sha256 []), 1, 1, 1, 1, 0⟩
  capacity := 2
  parameters := artifactOf pinParameters.raw
  provingKey := artifactOf pinProvingKey.raw
  verifyingKey := artifactOf pinVerifyingKey.raw

def SetupManifest.value (m : SetupManifest) : GoValue :=
  .struct [.string m.format, .string m.profile, .string m.setupKind, .string m.pairingCurve,
    .string m.standaloneCurve, .string m.pairingScalarOrder, .string m.standaloneScalarOrder,
    .string m.gnark, .string m.gnarkCrypto,
    .struct [.string m.circuit.sha256, .int m.circuit.constraints, .int m.circuit.publicVariables,
      .int m.circuit.secretVariables, .int m.circuit.internalVariables, .int m.circuit.commitments],
    .int m.capacity, m.parameters.value, m.provingKey.value, m.verifyingKey.value]

def pinManifest : List UInt8 :=
  (marshal setupManifestType pinSetup.value).flatMap String.utf8EncodeChar

theorem pinSetup_typed : HasType setupManifestType pinSetup.value := by
  have hint : ∀ n : ℕ, n < 2 ^ 63 → HasType (.int 64) (.int n) := by
    intro n hn
    exact ⟨by omega, by omega⟩
  refine ⟨rfl, rfl, rfl, rfl, rfl, rfl, rfl, rfl, rfl, ?_, hint 2 (by decide), ?_, ?_, ?_, rfl⟩
  · exact ⟨rfl, hint 1 (by decide), hint 1 (by decide), hint 1 (by decide), hint 1 (by decide),
      hint 0 (by decide), rfl⟩
  · exact ⟨rfl, hint _ (pinParameters.sized.2.trans_lt (by decide)), rfl⟩
  · exact ⟨rfl, hint _ (pinProvingKey.sized.2.trans_lt (by decide)), rfl⟩
  · exact ⟨rfl, hint _ (pinVerifyingKey.sized.2.trans_lt (by decide)), rfl⟩

theorem artifactOf_accepted {raw : List UInt8} (h : 0 < raw.length) :
    (parseDigest (artifactOf raw).sha256).isOk = true ∧ 0 < (artifactOf raw).size := by
  rw [artifactOf, parseDigest_hexDigest]
  exact ⟨rfl, Int.natCast_pos.2 h⟩

/-- The checks of the manifest, of the public files and of the proving key. -/
theorem pinFiles_accepted :
    pinSetup.supported = true ∧
      (assemblePublicPart sampleCodec pinKeys pinSetup pinParameters.raw
        pinVerifyingKey.raw).isOk = true ∧
      (preflightProvingKey pinKeys pinProvingKey.raw ()).isOk = true ∧
      pinKeys.provingPoints () = pinKeys.verifyingPoints () := by
  decide +kernel

theorem pinManifest_decodes : decodeManifest pinManifest = .ok pinSetup := by
  have hread : strictJSON setupManifestType pinManifest = .ok pinSetup.value := by
    rw [pinManifest, ← textBytes_ofList]
    exact decodeDocument_marshal
      (strictTypes_foldDistinct setupManifestType (by simp [strictTypes])) pinSetup_typed
  refine decodeManifest_eq_ok.2 ⟨_, hread, rfl, pinFiles_accepted.1, ?_, ?_, _,
    parseDigest_hexDigest _⟩
  · simp only [pinSetup, List.forall_mem_cons]
    exact ⟨artifactOf_accepted pinParameters.sized.1, artifactOf_accepted pinProvingKey.sized.1,
      artifactOf_accepted pinVerifyingKey.sized.1, fun ref href => absurd href List.not_mem_nil⟩
  · exact ⟨Int.ofNat_le.2 pinParameters.sized.2, Int.ofNat_le.2 pinProvingKey.sized.2,
      Int.ofNat_le.2 pinVerifyingKey.sized.2⟩

/-- A directory with these files. -/
def directoryOf (files : List (String × List UInt8)) : Directory :=
  fun name => (files.lookup name).map .regular

theorem mem_of_directoryOf {files : List (String × List UInt8)} {raw : List UInt8}
    (h : raw ∈ (directoryOf files).contents) : raw ∈ files.map Prod.snd := by
  obtain ⟨name, hname⟩ := h
  obtain ⟨raw', hlookup, heq⟩ := Option.map_eq_some_iff.1 hname
  obtain rfl := FileNode.regular.inj heq
  obtain ⟨before, after, hfiles, -⟩ := List.lookup_eq_some_iff.1 hlookup
  rw [hfiles]
  simp

/-- A setup with this proving key. -/
def pinFiles (provingKey : List UInt8) : List (String × List UInt8) :=
  [("pk.bin", provingKey), ("manifest.json", pinManifest), ("parameters.bin", pinParameters.raw),
    ("vk.bin", pinVerifyingKey.raw)]

def pinDirectory (provingKey : List UInt8) : Directory := directoryOf (pinFiles provingKey)

/-- A file that is no proving key. -/
def pinOther : List UInt8 := textBytes "no key"

theorem pinFiles_digests :
    hexDigest (sha256 pinParameters.raw) =
        "508c2889ced2d7c1f838be89baa0ac16ec6c9da3a843d6a8d25f5cd253721329" ∧
      hexDigest (sha256 pinProvingKey.raw) =
        "744986cae72daf6571a30ac184211af12735f402555562b129c023dfa66bff8c" ∧
      hexDigest (sha256 pinVerifyingKey.raw) =
        "092d64b394f99cc24b4c688e50dec7d1f6c1a3bebdc3442a29b30951cd919beb" ∧
      hexDigest (sha256 pinOther) =
        "a199dc8cce54d8538c2fb9e0f41e68e5a826be2fb2e95fce654ceea77e3b3039" ∧
      hexDigest (.zero 32) =
        "0000000000000000000000000000000000000000000000000000000000000000" := by
  decide +kernel

theorem pinManifest_digest : hexDigest (sha256 pinManifest) =
      "523edbd9ffcda8682491c442e4817a839b4c27f7ac38bb3196d9e2d52be6d18a" ∧
    pinManifest.length ≤ maxManifestBytes := by
  -- the digests in the text are known, so only the text is hashed
  simp only [pinManifest, pinSetup, artifactOf, pinFiles_digests]
  decide +kernel

/-- SHA-256 tells the files of the two directories apart. -/
theorem pinFiles_injOn :
    Set.InjOn sha256 ((pinDirectory pinProvingKey.raw).contents ∪
      (pinDirectory pinOther).contents) := by
  have hfiles : ∀ raw ∈ (pinDirectory pinProvingKey.raw).contents ∪
      (pinDirectory pinOther).contents,
      raw ∈ pinOther :: (pinFiles pinProvingKey.raw).map Prod.snd := by
    rintro raw (hraw | hraw)
    · exact List.mem_cons_of_mem _ (mem_of_directoryOf hraw)
    · rcases List.mem_cons.1 (mem_of_directoryOf hraw) with rfl | hmem
      · exact List.mem_cons_self
      · exact List.mem_cons_of_mem _ (List.mem_cons_of_mem _ hmem)
  have hnodup : ((pinOther :: (pinFiles pinProvingKey.raw).map Prod.snd).map
      fun raw => hexDigest (sha256 raw)).Nodup := by
    simp only [pinFiles, List.map_cons, List.map_nil, pinFiles_digests, pinManifest_digest]
    decide
  intro raw hraw raw' hraw' hdigest
  exact List.inj_on_of_nodup_map hnodup (hfiles raw hraw) (hfiles raw' hraw')
    (congrArg hexDigest hdigest)

theorem pin_ne_zero : sha256 pinManifest ≠ FixedBytes.zero 32 := by
  intro hzero
  have hdigest := pinManifest_digest.1
  rw [hzero] at hdigest
  simp only [pinFiles_digests] at hdigest
  exact absurd hdigest (by decide)

theorem artifactOf_read {dir : Directory} {name : String} {raw : List UInt8} {max : ℕ}
    (hfile : dir name = some (.regular raw)) (hsize : 0 < raw.length ∧ raw.length ≤ max) :
    readArtifact dir name (artifactOf raw) max = .ok raw := by
  refine readArtifact_eq_ok.2 ⟨⟨?_, ?_⟩, hfile, rfl, parseDigest_hexDigest _⟩
  · exact Int.ofNat_le.2 hsize.1
  · exact Int.ofNat_le.2 hsize.2

theorem pinFiles_manifest (provingKey : List UInt8) :
    readManifest (pinDirectory provingKey) (sha256 pinManifest) =
      .ok (pinSetup, pinManifest) :=
  readManifest_eq_ok.2 ⟨pin_ne_zero, rfl, Int.ofNat_le.2 pinManifest_digest.2, rfl,
    pinManifest_decodes⟩

/-- Whatever the proving key is, the directory loads as a public setup. -/
theorem pinFiles_public (provingKey : List UInt8) :
    ∃ base, base.manifest = pinSetup ∧
      loadPublicPart sampleCodec pinKeys (pinDirectory provingKey) (sha256 pinManifest) =
        .ok (base, ()) := by
  obtain ⟨⟨base, cs⟩, hbase⟩ := exists_ok_of_isOk pinFiles_accepted.2.1
  refine ⟨base, ?_, loadPublicPart_eq_ok.2 ⟨pinSetup, pinManifest, pinParameters.raw,
    pinVerifyingKey.raw, pinFiles_manifest provingKey, artifactOf_read rfl pinParameters.sized,
    artifactOf_read rfl pinVerifyingKey.sized, hbase⟩⟩
  simp only [assemblePublicPart, bind_eq_ok, pure_eq_ok, Prod.mk.injEq] at hbase
  obtain ⟨_, _, _, _, _, _, _, _, _, _, _, _, _, _, rfl, _⟩ := hbase
  rfl

/-- With its own proving key it loads as a full setup, and with any other still as a public one. -/
theorem pinFiles_load : ∃ full pub,
    loadSetup sampleCodec pinKeys (pinDirectory pinProvingKey.raw) (sha256 pinManifest) true =
        .ok full ∧
      loadSetup sampleCodec pinKeys (pinDirectory pinOther) (sha256 pinManifest) false =
        .ok pub := by
  obtain ⟨base, hmanifest, hbase⟩ := pinFiles_public pinProvingKey.raw
  obtain ⟨pub, -, hpub⟩ := pinFiles_public pinOther
  obtain ⟨⟨⟨⟩, hpreflight⟩, hpoints⟩ := pinFiles_accepted.2.2.imp_left exists_ok_of_isOk
  have hread : readArtifact (pinDirectory pinProvingKey.raw) "pk.bin"
      base.manifest.provingKey maxProvingKeyBytes = .ok pinProvingKey.raw := by
    rw [hmanifest]
    exact artifactOf_read rfl pinProvingKey.sized
  have hkey := loadProvingKey_eq_ok.2 ⟨pinProvingKey.raw, hread, hpreflight, rfl, hpoints⟩
  exact ⟨_, pub, loadSetup_eq_ok.2 ⟨base, (), hbase, Or.inr ⟨rfl, _, hkey, rfl⟩⟩,
    loadSetup_eq_ok.2 ⟨pub, (), hpub, Or.inl ⟨rfl, rfl⟩⟩⟩

def pinCalls : SystemCalls := ⟨.ok (), fun _ => .ok (), .ok ()⟩

/-- The file system with the full setup alone. -/
def pinFileSystem : FileSystem :=
  fun path => if path = "setup" then some (pinDirectory pinProvingKey.raw) else none

theorem setup_pinned_sample :
    ∃ full pub exported fs,
      loadSetup sampleCodec pinKeys (pinDirectory pinProvingKey.raw) (sha256 pinManifest) true
        = .ok full ∧
      loadSetup sampleCodec pinKeys (pinDirectory pinOther) (sha256 pinManifest) false =
        .ok pub ∧
      full.manifest = pub.manifest ∧ full.parameters = pub.parameters ∧
      full.verifier = pub.verifier ∧
      exportPublicSetup sampleCodec pinKeys pinCalls pinFileSystem "setup" "public"
        (sha256 pinManifest) = .ok fs ∧
      loadPublicSetup sampleCodec pinKeys (fs.directory "public") (sha256 pinManifest) =
        .ok exported := by
  obtain ⟨hpinned, hexported⟩ := setup_pinned sampleCodec pinKeys (sha256 pinManifest)
  obtain ⟨full, pub, hfull, hpublic⟩ := pinFiles_load
  obtain ⟨base, -, hbase⟩ := pinFiles_public pinProvingKey.raw
  have hsource : loadPublicSetup sampleCodec pinKeys (pinFileSystem.directory "setup")
      (sha256 pinManifest) = .ok base :=
    loadSetup_eq_ok.2 ⟨base, (), hbase, Or.inl ⟨rfl, rfl⟩⟩
  obtain ⟨fs, hexport⟩ : ∃ fs, exportPublicSetup sampleCodec pinKeys pinCalls pinFileSystem "setup"
      "public" (sha256 pinManifest) = .ok fs :=
    exportPublicSetup_isOk hsource rfl rfl (fun _ => rfl) rfl
  obtain ⟨hmanifest, hparameters, hverifier, -⟩ :=
    hpinned _ _ pinFiles_injOn true false full pub hfull hpublic
  obtain ⟨exported, hloads, -, -⟩ := hexported _ _ _ _ _ hexport
  exact ⟨full, pub, exported, fs, hfull, hpublic, hmanifest, hparameters, hverifier, hexport,
    hloads⟩

end Lktrs.NativeProof
