import Mxterm.SecretTransport
import Mxterm.SymbolicPlatform

/-! An exported snapshot, and what reading and importing it yields. -/
namespace Mxterm.SyncSnapshot

open Execution StorageRepository RepositoryCommands SyncRepository SecureBundle

variable {β : Type} {P : Platform β}

/-- What the bundle of an export is made of. -/
structure Exported (P : Platform β) (draws : SnapshotDraws P) (options : SyncExportOptions)
    (s : StorageRepository) (bundle : SyncSnapshotBundle β) : Prop where
  data : bundle.dataJson = P.dataJson.encode (exportedData s.database.toTables)
  manifest : bundle.manifest = buildManifest P draws.snapshotId.toString options.deviceId
    options.deviceName options.createdAt bundle.dataJson bundle.remoteSecretsEnc
  secrets : match usablePassword options.syncPassword with
    | none => bundle.remoteSecretsEnc = none
    | some password => ∃ secrets encrypted,
        (secretRows s.database.toTables).map (secretEntry s.secrets) = secrets.map some ∧
        encryptRemoteSecrets P draws.random draws.snapshotId.toString
          (sha256Hex P.toCrypto bundle.dataJson) password ⟨syncProtocolVersion,secrets⟩ =
            .ok encrypted ∧ bundle.remoteSecretsEnc = some encrypted

theorem exportBundle_ok {draws : SnapshotDraws P} {options : SyncExportOptions}
    {s s' : StorageRepository} {bundle : SyncSnapshotBundle β}
    (h : exportBundle P draws options s = .ok bundle s') :
    Exported P draws options s bundle ∧ ∃ calls, s' = s.ticks calls := by
  simp only [exportBundle,bind_ok,pure_ok,exportSyncData_ok] at h
  obtain ⟨data,_,⟨-,rfl,rfl⟩,remote,t,hremote,rfl,rfl⟩ := h
  cases husable : usablePassword options.syncPassword with
  | none =>
    simp only [husable,exportRemoteSecrets,pure_ok] at hremote
    obtain ⟨rfl,rfl⟩ := hremote
    exact ⟨⟨rfl,rfl,by rw [husable]⟩,6,rfl⟩
  | some password =>
    simp only [husable,exportRemoteSecrets,bind_ok,pure_ok,lift_ok,exportSyncSecrets_ok] at hremote
    obtain ⟨secrets,_,⟨-,hsecrets,rfl⟩,encrypted,_,⟨hencrypt,rfl⟩,rfl,rfl⟩ := hremote
    refine ⟨⟨rfl,rfl,?_⟩,_,ticks_ticks _ _ _⟩
    rw [husable]
    exact ⟨secrets,encrypted,hsecrets,hencrypt,rfl⟩

/-- The artifacts pass the check against the manifest that was built from them. -/
theorem validateBundleArtifacts_built (snapshotId deviceId deviceName createdAt : String)
    (dataJson : β) (remoteSecretsEnc : Option β) :
    validateBundleArtifacts P (buildManifest P snapshotId deviceId deviceName createdAt dataJson
      remoteSecretsEnc) dataJson remoteSecretsEnc = .ok () := by
  have hdata : validateArtifact P (buildManifest P snapshotId deviceId deviceName createdAt
      dataJson remoteSecretsEnc) dataArtifact dataJson = .ok () := by
    simp [validateArtifact,buildManifest,artifactsOf,artifactMeta]
  have hsecrets : validateSecretsArtifact P (buildManifest P snapshotId deviceId deviceName
      createdAt dataJson remoteSecretsEnc) remoteSecretsEnc = .ok () := by
    cases remoteSecretsEnc <;>
      simp [validateSecretsArtifact,validateArtifact,buildManifest,artifactsOf,artifactMeta,
        secretsArtifact,dataArtifact]
  rw [validateBundleArtifacts,hdata]
  exact hsecrets

variable {draws : SnapshotDraws P} {options : SyncExportOptions} {s : StorageRepository}
variable {bundle : SyncSnapshotBundle β}

theorem readData_exported (hdata : P.dataJson.RoundTrips)
    (h : Exported P draws options s bundle) :
    readData P bundle = .ok (exportedData s.database.toTables) := by
  have hvalid : validateBundleArtifacts P bundle.manifest bundle.dataJson bundle.remoteSecretsEnc =
      .ok () := h.manifest ▸ validateBundleArtifacts_built ..
  simp only [readData,except_bind_ok]
  exact ⟨(),hvalid,_,mapError_ok.mpr (h.data ▸ hdata _),by simp [checkDataVersion,exportedData]⟩

/-- With the password of the export, the secrets of the export are read back. -/
theorem readSecrets_exported (hP : P.RoundTrips) (h : Exported P draws options s bundle)
    {password : String} (husable : usablePassword options.syncPassword = some password) :
    ∃ secrets, (secretRows s.database.toTables).map (secretEntry s.secrets) = secrets.map some ∧
      readSecrets P bundle options.syncPassword = .ok (some ⟨syncProtocolVersion,secrets⟩) := by
  have hsecrets := h.secrets
  rw [husable] at hsecrets
  obtain ⟨secrets,encrypted,hentries,hencrypt,hremote⟩ := hsecrets
  refine ⟨secrets,hentries,?_⟩
  obtain ⟨envelope,hencrypted,hdecrypted⟩ := decryptJson_encryptJson hP.crypto hP.secrets
    draws.random (remoteSecretAad P draws.snapshotId.toString (sha256Hex P.toCrypto bundle.dataJson))
    password ⟨syncProtocolVersion,secrets⟩
  simp only [encryptRemoteSecrets,except_bind_ok,mapError_ok,Except.ok.injEq] at hencrypt
  obtain ⟨envelope',henvelope',rfl⟩ := hencrypt
  cases hencrypted.symm.trans henvelope'
  have hsummary : validateManifestSummary bundle.manifest = .ok () := by
    simp [h.manifest,validateManifestSummary,buildManifest,artifactsOf]
  have hsnapshot : bundle.manifest.snapshotId = draws.snapshotId.toString := by rw [h.manifest]; rfl
  have hread : decryptRemoteSecrets P bundle.manifest bundle.dataJson
      (P.envelopeJson.encode ⟨syncFormat,syncProtocolVersion,envelope⟩) password =
        .ok ⟨syncProtocolVersion,secrets⟩ := by
    simp only [decryptRemoteSecrets,except_bind_ok,mapError_ok,hsnapshot]
    exact ⟨(),hsummary,_,hP.envelope _,(),by simp [validateRemoteSecretEnvelope],_,hdecrypted,
      by simp [checkSecretsVersion]⟩
  simp only [readSecrets,husable,hremote,hread]
  rfl

/-- Everything a successful import has done. -/
theorem importBundle_ok {bundle : SyncSnapshotBundle β} {password : Option String}
    {s s' : StorageRepository} {result : SyncImportResult}
    (h : importBundle P bundle password s = .ok result s') :
    ∃ data secrets, readData P bundle = .ok data ∧ Validated data ∧
      readSecrets P bundle password = .ok secrets ∧
      Holds P.toSurroundings data secrets.isSome s'.database.toTables ∧
      s'.secrets = storeAll s.secrets ((secrets.map (·.secrets)).getD []) ∧
      s.transaction = none ∧ s'.transaction = none ∧ s'.faults = s.faults := by
  have hloop : ∀ secrets : Option SyncSecretsPlaintext, importSecretsIfRead secrets =
      forEach importSecret ((secrets.map (·.secrets)).getD []) := fun secrets => by
    cases secrets <;> rfl
  simp only [importBundle,bind_ok,pure_ok,lift_ok,hloop,replaceSyncData_ok,replaceSyncDataInner_ok]
    at h
  obtain ⟨data,_,⟨hdata,rfl⟩,_,_,hbackup,_,_,⟨hvalid,rfl⟩,secrets,_,⟨hsecrets,rfl⟩,_,t,hstored,
    stats,_,⟨-,hidle,-,d,hd,rfl⟩,-,rfl⟩ := h
  obtain rfl : s.backedUp = _ := (EStateM.Result.ok.inj hbackup).2
  obtain ⟨-,-,honly⟩ := importSecrets_ok hstored
  exact ⟨data,secrets,hdata,validateSyncDataDocument_ok.mp hvalid,hsecrets,hd,honly.secrets,
    honly.transaction.symm.trans hidle,rfl,honly.faults⟩

end Mxterm.SyncSnapshot
