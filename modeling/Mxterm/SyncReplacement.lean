import Mathlib
import Mxterm.SyncRepository

/-! When a snapshot replaces the tables, and what the tables hold afterwards: exactly the records
of the document, whatever was there before. -/
namespace Mxterm.SyncRepository

open Database hiding empty

open Execution StorageRepository RepositoryCommands

/-- The tables hold the records of the document and nothing else. -/
structure Holds (e : Surroundings) (data : SyncDataDocument) (restoreSecretRefs : Bool)
    (t : Tables) : Prop where
  connectionGroups : t.connectionGroups.rows = data.connectionGroups
  credentials : t.credentials.rows = data.credentials.map (credentialRowOf restoreSecretRefs)
  connections : t.connections.rows = data.connections.map (connectionRowOf restoreSecretRefs)
  knownHosts : t.knownHosts.rows = data.knownHosts.map (knownHostRowOf e)
  tunnels : t.tunnels.rows = data.tunnels
  appSettings : t.appSettings.rows = data.settings.entries.map (settingRowOf e)

variable {e : Surroundings} {data : SyncDataDocument} {restoreSecretRefs : Bool}

/-- The statements between `BEGIN IMMEDIATE` and `COMMIT`. -/
def replaceStatements (e : Surroundings) (data : SyncDataDocument) (restoreSecretRefs : Bool) :
    List Statement :=
  allTables.map .clear ++ (data.connectionGroups.map .insertGroup ++
    ((data.credentials.map (credentialRowOf restoreSecretRefs)).map .insertCredential ++
      ((data.connections.map (connectionRowOf restoreSecretRefs)).map .insertConnection ++
        ((data.knownHosts.map (knownHostRowOf e)).map .insertKnownHost ++
          (data.tunnels.map .insertTunnel ++
            (data.settings.entries.map (settingRowOf e)).map .insertSetting)))))

/-- The number of calls one replacement makes. -/
def replaceCalls (e : Surroundings) (data : SyncDataDocument) (restoreSecretRefs : Bool) : ℕ :=
  1 + ((replaceStatements e data restoreSecretRefs).length + 1)

/-- The databases a replacement passes through, from the empty one to `d`. -/
theorem execAll_of_holds {c d : Database} (h : Holds e data restoreSecretRefs d.toTables) :
    c.execAll (replaceStatements e data restoreSecretRefs) = .ok d := by
  let d₁ : Database := ⟨{ Tables.empty with connectionGroups := d.connectionGroups },
    ⟨d.consistent.groupNamesNodup,by simp [Tables.empty],by simp [Tables.empty]⟩⟩
  let d₂ : Database := ⟨{ d₁.toTables with credentials := d.credentials },
    ⟨d.consistent.groupNamesNodup,by simp [d₁,Tables.empty],by simp [d₁,Tables.empty]⟩⟩
  let d₃ : Database := ⟨{ d₂.toTables with connections := d.connections },
    ⟨d.consistent.groupNamesNodup,d.consistent.connectionRefers,by simp [d₂,d₁,Tables.empty]⟩⟩
  let d₄ : Database := ⟨{ d₃.toTables with knownHosts := d.knownHosts },
    ⟨d.consistent.groupNamesNodup,d.consistent.connectionRefers,by simp [d₃,d₂,d₁,Tables.empty]⟩⟩
  let d₅ : Database := ⟨{ d₄.toTables with tunnels := d.tunnels },
    ⟨d.consistent.groupNamesNodup,d.consistent.connectionRefers,d.consistent.tunnelRefers⟩⟩
  simp only [replaceStatements,execAll_append_ok]
  refine ⟨.empty,execAll_clear.mpr rfl,d₁,execAll_insertGroups.mpr ⟨?_,rfl⟩,
    d₂,execAll_insertCredentials.mpr ⟨?_,rfl⟩,
    d₃,execAll_insertConnections.mpr ⟨?_,rfl⟩,
    d₄,execAll_insertKnownHosts.mpr ⟨?_,rfl⟩,
    d₅,execAll_insertTunnels.mpr ⟨?_,rfl⟩,
    execAll_insertSettings.mpr ⟨?_,rfl⟩⟩
  · exact h.connectionGroups
  · exact h.credentials
  · exact h.connections
  · exact h.knownHosts
  · exact h.tunnels
  · exact h.appSettings

theorem holds_of_execAll {c d : Database}
    (h : c.execAll (replaceStatements e data restoreSecretRefs) = .ok d) :
    Holds e data restoreSecretRefs d.toTables := by
  simp only [replaceStatements,execAll_append_ok,execAll_clear,
    execAll_insertGroups,execAll_insertCredentials,
    execAll_insertConnections,execAll_insertKnownHosts,
    execAll_insertTunnels,execAll_insertSettings] at h
  obtain ⟨_,rfl,d₁,⟨h₁,r₁⟩,d₂,⟨h₂,r₂⟩,d₃,⟨h₃,r₃⟩,d₄,⟨h₄,r₄⟩,d₅,⟨h₅,r₅⟩,h₆,r₆⟩ := h
  simp only [Tables.ext_iff,besideGroups,besideCredentials,
    besideConnections,besideKnownHosts,besideTunnels,
    besideSettings] at r₁ r₂ r₃ r₄ r₅ r₆
  constructor <;> simp_all [Database.empty,Tables.empty]

def importStats (data : SyncDataDocument) : SyncRepositoryImportStats :=
  ⟨data.connections.length,data.credentials.length,data.knownHosts.length,data.tunnels.length⟩

/-- The repository after a transaction that stored `d`. -/
def committed (s : StorageRepository) (calls : ℕ) (d : Database) : StorageRepository :=
  { s.ticks calls with transaction := none, disk := { s.disk with database := d } }

variable {s s' : StorageRepository}

theorem replaceTables_ok :
    replaceTables e data restoreSecretRefs s = .ok () s' ↔
      forEach (execute sqliteRepositoryError) (replaceStatements e data restoreSecretRefs) s =
        .ok () s' := by
  simp only [replaceTables,replaceStatements,bind_ok,forEach_append_ok,forEach_map]
  constructor
  · rintro ⟨_,t₀,h₀,_,t₁,h₁,_,t₂,h₂,_,t₃,h₃,_,t₄,h₄,_,t₅,h₅,h₆⟩
    exact ⟨t₀,h₀,t₁,h₁,t₂,h₂,t₃,h₃,t₄,h₄,t₅,h₅,h₆⟩
  · rintro ⟨t₀,h₀,t₁,h₁,t₂,h₂,t₃,h₃,t₄,h₄,t₅,h₅,h₆⟩
    exact ⟨_,t₀,h₀,_,t₁,h₁,_,t₂,h₂,_,t₃,h₃,_,t₄,h₄,_,t₅,h₅,h₆⟩

/-- A replacement succeeds when no call fails and some database holds the document. -/
theorem replaceSyncDataInner_ok {stats : SyncRepositoryImportStats} :
    replaceSyncDataInner e data restoreSecretRefs s = .ok stats s' ↔
      s.Spared (replaceCalls e data restoreSecretRefs) ∧ s.transaction = none ∧
        stats = importStats data ∧ ∃ d : Database, Holds e data restoreSecretRefs d.toTables ∧
          s' = committed s (replaceCalls e data restoreSecretRefs) d := by
  have hloops : replaceSyncDataInner e data restoreSecretRefs s = .ok stats s' ↔
      ∃ t, beginImmediate sqliteRepositoryError s = .ok () t ∧
        ∃ u, forEach (execute sqliteRepositoryError) (replaceStatements e data restoreSecretRefs) t =
          .ok () u ∧ commit sqliteRepositoryError u = .ok () s' ∧ stats = importStats data := by
    simp only [replaceSyncDataInner,bind_ok,pure_ok,← replaceTables_ok]
    constructor
    · rintro ⟨_,t,hbegin,_,u,hrows,_,v,hcommit,rfl,rfl⟩
      exact ⟨t,hbegin,u,hrows,hcommit,rfl⟩
    · rintro ⟨t,hbegin,u,hrows,hcommit,rfl⟩
      exact ⟨_,t,hbegin,_,u,hrows,_,s',hcommit,rfl,rfl⟩
  rw [hloops]
  set n := (replaceStatements e data restoreSecretRefs).length with hn
  let t : StorageRepository := { s.advance with transaction := some s.disk.database }
  have hcalls : s.Spared (replaceCalls e data restoreSecretRefs) ↔
      s.faults s.clock = none ∧ t.Spared n ∧ (t.ticks n).faults (t.ticks n).clock = none := by
    rw [replaceCalls,spared_add (s := s) (t := t) rfl rfl,
      spared_add (s := t) (t := t.ticks n) rfl rfl,spared_one,spared_one]
  have hcommitted : ∀ d, ({ ({ t.ticks n with transaction := some d } : StorageRepository).advance with
      transaction := none, disk := { s.disk with database := d } } : StorageRepository) =
      committed s (replaceCalls e data restoreSecretRefs) d := by
    intro d
    simp only [committed,replaceCalls,ticks,advance,t,hn]
    congr 1
    omega
  simp only [beginImmediate_ok,forEach_execute_ok,commit_ok,hcalls,← hn]
  constructor
  · rintro ⟨_,⟨hfault,hidle,rfl⟩,_,⟨hspared,d,hd,rfl⟩,⟨hfault',d',hd',rfl⟩,rfl⟩
    cases hd'
    exact ⟨⟨hfault,hspared,hfault'⟩,hidle,rfl,d,holds_of_execAll hd,hcommitted d⟩
  · rintro ⟨⟨hfault,hspared,hfault'⟩,hidle,rfl,d,hd,rfl⟩
    exact ⟨t,⟨hfault,hidle,rfl⟩,_,⟨hspared,d,execAll_of_holds hd,rfl⟩,⟨hfault',d,rfl,
      (hcommitted d).symm⟩,rfl⟩

theorem replaceSyncData_ok {stats : SyncRepositoryImportStats} :
    replaceSyncData e data restoreSecretRefs s = .ok stats s' ↔
      replaceSyncDataInner e data restoreSecretRefs s = .ok stats s' := by
  cases h : replaceSyncDataInner e data restoreSecretRefs s with
  | ok stats' t => simp [replaceSyncData,bind,EStateM.bind,attempt,h,pure,EStateM.pure]
  | error error t =>
    simp [replaceSyncData,bind,EStateM.bind,attempt,h,rollback,throw,throwThe,MonadExceptOf.throw,
      EStateM.throw]

theorem replaceTables_inTransaction (e : Surroundings) (data : SyncDataDocument)
    (restoreSecretRefs : Bool) {disk : TransferRecovery.Disk Entries Database} {secrets : Entries} :
    Maintains (InTransaction disk secrets) (replaceTables e data restoreSecretRefs) := by
  have hrun : ∀ statement, Maintains (InTransaction disk secrets)
      (execute sqliteRepositoryError statement) := fun statement => execute_inTransaction _ _
  refine Maintains.bind (.forEach (fun _ => hrun _) _) fun _ => ?_
  refine Maintains.bind (.forEach (fun _ => hrun _) _) fun _ => ?_
  refine Maintains.bind (.forEach (fun _ => hrun _) _) fun _ => ?_
  refine Maintains.bind (.forEach (fun _ => hrun _) _) fun _ => ?_
  refine Maintains.bind (.forEach (fun _ => hrun _) _) fun _ => ?_
  refine Maintains.bind (.forEach (fun _ => hrun _) _) fun _ => ?_
  exact .forEach (fun _ => hrun _) _

/-- A replacement that fails leaves the tables and the vault as they were. -/
theorem replaceSyncData_error {error : AppError} (hidle : s.transaction = none)
    (h : replaceSyncData e data restoreSecretRefs s = .error error s') :
    s'.database = s.database ∧ s'.secrets = s.secrets ∧ s'.transaction = none := by
  have hinner : ∃ cause t, replaceSyncDataInner e data restoreSecretRefs s = .error cause t ∧
      s' = { t.advance with transaction := none } := by
    simp only [replaceSyncData,bind_error,attempt_not_error,false_or] at h
    obtain ⟨result,t,hattempt,h⟩ := h
    rcases (attempt_ok _ _ _ _).mp hattempt with ⟨stats,rfl,-⟩ | ⟨cause,rfl,hcause⟩
    · exact absurd h (pure_not_error _ _ _ _)
    · refine ⟨cause,t,hcause,?_⟩
      obtain ⟨_,_,⟨-,rfl⟩,-,rfl⟩ := h
      rfl
  obtain ⟨cause,t,hcause,rfl⟩ := hinner
  have hkept : t.disk.database = s.disk.database ∧ t.secrets = s.secrets := by
    simp only [replaceSyncDataInner,bind_error,pure_not_error,and_false,exists_false,or_false] at hcause
    rcases hcause with hbegin | ⟨_,v,hbegin,hcause⟩
    · obtain rfl := beginImmediate_error hbegin
      exact ⟨rfl,rfl⟩
    obtain ⟨-,-,hbegun⟩ := beginImmediate_ok.mp hbegin
    have hopen : InTransaction s.disk s.secrets v := by
      subst hbegun
      exact ⟨rfl,rfl,rfl⟩
    have hkeeps : Maintains (InTransaction s.disk s.secrets) (replaceTables e data restoreSecretRefs) :=
      replaceTables_inTransaction e data restoreSecretRefs
    rcases hcause with hrows | ⟨_,u,hrows,hcommit⟩
    · have ht := hkeeps.of_error hopen hrows
      exact ⟨congrArg _ ht.disk,ht.secrets⟩
    · obtain rfl := commit_error hcommit
      have hu := hkeeps.of_ok hopen hrows
      exact ⟨congrArg _ hu.disk,hu.secrets⟩
  simp [database,hidle,hkept]

end Mxterm.SyncRepository
