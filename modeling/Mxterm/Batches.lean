import Mxterm.StorageRepository

/-! Statements one after the other. Rows that were inserted in sequence end up behind the rows
that were there, and every list of rows that a database can hold can be inserted so. -/
namespace Mxterm
open List

namespace Database

def execAll (d : Database) : List Statement → Except String Database
  | [] => .ok d
  | statement :: statements =>
    match d.exec statement with
    | .ok e => e.execAll statements
    | .error raw => .error raw

variable {d e : Database}

theorem execAll_cons_ok {statement : Statement} {statements : List Statement} :
    d.execAll (statement :: statements) = .ok e ↔
      ∃ c, d.exec statement = .ok c ∧ c.execAll statements = .ok e := by
  simp only [execAll]
  cases d.exec statement <;> simp

theorem execAll_append_ok {before after : List Statement} :
    d.execAll (before ++ after) = .ok e ↔
      ∃ c, d.execAll before = .ok c ∧ c.execAll after = .ok e := by
  induction before generalizing d with
  | nil => simp [execAll]
  | cons statement before ih =>
    simp only [cons_append,execAll_cons_ok,ih]
    constructor
    · rintro ⟨b,hb,c,hc,he⟩; exact ⟨c,⟨b,hb,hc⟩,he⟩
    · rintro ⟨c,⟨b,hb,hc⟩,he⟩; exact ⟨b,hb,c,hc,he⟩

/-- The insertions into one table, whose rows are `rows` beside the `rest` of the database. -/
theorem execAll_inserts {ρ τ : Type} (insert : ρ → Statement) (rows : Database → List ρ) (rest : Database → τ)
    (hext : ∀ {d e}, rows e = rows d → rest e = rest d → e = d)
    (hstep : ∀ {d e r}, d.exec (insert r) = .ok e → rows e = rows d ++ [r] ∧ rest e = rest d)
    (hcan : ∀ {d e r rs}, rows e = rows d ++ r :: rs → rest e = rest d → ∃ c, d.exec (insert r) = .ok c)
    {rs : List ρ} : d.execAll (rs.map insert) = .ok e ↔
      rows e = rows d ++ rs ∧ rest e = rest d := by
  induction rs generalizing d with
  | nil =>
    simp only [map_nil,execAll,Except.ok.injEq,append_nil]
    constructor
    · rintro rfl; exact ⟨rfl,rfl⟩
    · rintro ⟨hrows,hrest⟩; exact (hext hrows hrest).symm
  | cons r rs ih =>
    rw [map_cons,execAll_cons_ok]
    constructor
    · rintro ⟨c,hc,he⟩
      obtain ⟨hrows,hrest⟩ := hstep hc
      obtain ⟨hrows',hrest'⟩ := ih.mp he
      exact ⟨by rw [hrows',hrows,append_assoc]; rfl,hrest'.trans hrest⟩
    · rintro ⟨hrows,hrest⟩
      obtain ⟨c,hc⟩ := hcan hrows hrest
      obtain ⟨hrows',hrest'⟩ := hstep hc
      exact ⟨c,hc,ih.mpr ⟨by rw [hrows,hrows',append_assoc]; rfl,hrest.trans hrest'.symm⟩⟩

variable {d e : Database}

theorem exec_ok_of {t : Tables} {statement : Statement} (h : d.toTables.exec statement = .ok t) :
    ∃ c, d.exec statement = .ok c :=
  ⟨⟨t,Tables.exec_consistent d.consistent h⟩,exec_ok_iff.mpr h⟩

/-- All tables but the one named. -/
def besideGroups (d : Database) : Tables := { d.toTables with connectionGroups := .empty _ }
def besideCredentials (d : Database) : Tables := { d.toTables with credentials := .empty _ }
def besideConnections (d : Database) : Tables := { d.toTables with connections := .empty _ }
def besideKnownHosts (d : Database) : Tables := { d.toTables with knownHosts := .empty _ }
def besideTunnels (d : Database) : Tables := { d.toTables with tunnels := .empty _ }
def besideSettings (d : Database) : Tables := { d.toTables with appSettings := .empty _ }

theorem execAll_insertGroups {groups : List SyncConnectionGroup} :
    d.execAll (groups.map .insertGroup) = .ok e ↔
      e.connectionGroups.rows = d.connectionGroups.rows ++ groups ∧
        e.besideGroups = d.besideGroups := by
  refine execAll_inserts _ (fun d => d.connectionGroups.rows) besideGroups ?_ ?_ ?_
  · intro d e hrows hrest
    obtain ⟨-,hcredentials,hconnections,hknownHosts,htunnels,hsettings⟩ := Tables.ext_iff.mp hrest
    exact Database.ext (Tables.ext (Table.ext hrows) hcredentials hconnections hknownHosts htunnels hsettings)
  · intro d e row h
    obtain ⟨-,groups,hinsert,he⟩ := Tables.exec_insertGroup_ok.mp (exec_ok_iff.mp h)
    simp [he,besideGroups,(Table.insert_eq_some_iff.mp hinsert).2]
  · intro d e row rows hrows _
    obtain ⟨groups,hgroups⟩ := Table.insert_of_rows_append hrows
    refine exec_ok_of (Tables.exec_insertGroup_ok.mpr ⟨?_,groups,hgroups,rfl⟩)
    have hnames := e.consistent.groupNamesNodup
    simp only [Tables.groupNames,hrows,map_append,map_cons] at hnames
    exact fun hmem => disjoint_of_nodup_append hnames hmem mem_cons_self

theorem execAll_insertCredentials {rows : List CredentialRow} :
    d.execAll (rows.map .insertCredential) = .ok e ↔
      e.credentials.rows = d.credentials.rows ++ rows ∧
        e.besideCredentials = d.besideCredentials := by
  refine execAll_inserts _ (fun d => d.credentials.rows) besideCredentials ?_ ?_ ?_
  · intro d e hrows hrest
    obtain ⟨hgroups,-,hconnections,hknownHosts,htunnels,hsettings⟩ := Tables.ext_iff.mp hrest
    exact Database.ext (Tables.ext hgroups (Table.ext hrows) hconnections hknownHosts htunnels hsettings)
  · intro d e row h
    obtain ⟨credentials,hinsert,he⟩ := Tables.exec_insertCredential_ok.mp (exec_ok_iff.mp h)
    simp [he,besideCredentials,(Table.insert_eq_some_iff.mp hinsert).2]
  · intro d e row rows hrows _
    obtain ⟨credentials,hcredentials⟩ := Table.insert_of_rows_append hrows
    exact exec_ok_of (Tables.exec_insertCredential_ok.mpr ⟨credentials,hcredentials,rfl⟩)

/-- The groups and accounts that a connection refers to are already there. -/
theorem execAll_insertConnections {rows : List ConnectionRow} :
    d.execAll (rows.map .insertConnection) = .ok e ↔
      e.connections.rows = d.connections.rows ++ rows ∧
        e.besideConnections = d.besideConnections := by
  refine execAll_inserts _ (fun d => d.connections.rows) besideConnections ?_ ?_ ?_
  · intro d e hrows hrest
    obtain ⟨hgroups,hcredentials,-,hknownHosts,htunnels,hsettings⟩ := Tables.ext_iff.mp hrest
    exact Database.ext (Tables.ext hgroups hcredentials (Table.ext hrows) hknownHosts htunnels hsettings)
  · intro d e row h
    obtain ⟨-,connections,hinsert,he⟩ := Tables.exec_insertConnection_ok.mp (exec_ok_iff.mp h)
    simp [he,besideConnections,(Table.insert_eq_some_iff.mp hinsert).2]
  · intro d e row rows hrows hrest
    obtain ⟨connections,hconnections⟩ := Table.insert_of_rows_append hrows
    refine exec_ok_of (Tables.exec_insertConnection_ok.mpr ⟨?_,connections,hconnections,rfl⟩)
    have hrefers := e.consistent.connectionRefers row (by simp [Table.mem_iff,hrows])
    obtain ⟨hgroups,hcredentials,-⟩ := Tables.ext_iff.mp hrest
    simp only [besideConnections] at hgroups hcredentials
    simpa [Tables.Refers,hgroups,hcredentials] using hrefers

theorem execAll_insertKnownHosts {rows : List KnownHostRow} :
    d.execAll (rows.map .insertKnownHost) = .ok e ↔
      e.knownHosts.rows = d.knownHosts.rows ++ rows ∧
        e.besideKnownHosts = d.besideKnownHosts := by
  refine execAll_inserts _ (fun d => d.knownHosts.rows) besideKnownHosts ?_ ?_ ?_
  · intro d e hrows hrest
    obtain ⟨hgroups,hcredentials,hconnections,-,htunnels,hsettings⟩ := Tables.ext_iff.mp hrest
    exact Database.ext (Tables.ext hgroups hcredentials hconnections (Table.ext hrows) htunnels hsettings)
  · intro d e row h
    obtain ⟨knownHosts,hinsert,he⟩ := Tables.exec_insertKnownHost_ok.mp (exec_ok_iff.mp h)
    simp [he,besideKnownHosts,(Table.insert_eq_some_iff.mp hinsert).2]
  · intro d e row rows hrows _
    obtain ⟨knownHosts,hknownHosts⟩ := Table.insert_of_rows_append hrows
    exact exec_ok_of (Tables.exec_insertKnownHost_ok.mpr ⟨knownHosts,hknownHosts,rfl⟩)

theorem execAll_insertTunnels {rows : List TunnelRule} :
    d.execAll (rows.map .insertTunnel) = .ok e ↔
      e.tunnels.rows = d.tunnels.rows ++ rows ∧ e.besideTunnels = d.besideTunnels := by
  refine execAll_inserts _ (fun d => d.tunnels.rows) besideTunnels ?_ ?_ ?_
  · intro d e hrows hrest
    obtain ⟨hgroups,hcredentials,hconnections,hknownHosts,-,hsettings⟩ := Tables.ext_iff.mp hrest
    exact Database.ext (Tables.ext hgroups hcredentials hconnections hknownHosts (Table.ext hrows) hsettings)
  · intro d e row h
    obtain ⟨-,tunnels,hinsert,he⟩ := Tables.exec_insertTunnel_ok.mp (exec_ok_iff.mp h)
    simp [he,besideTunnels,(Table.insert_eq_some_iff.mp hinsert).2]
  · intro d e row rows hrows hrest
    obtain ⟨tunnels,htunnels⟩ := Table.insert_of_rows_append hrows
    refine exec_ok_of (Tables.exec_insertTunnel_ok.mpr ⟨?_,tunnels,htunnels,rfl⟩)
    have hrefers := e.consistent.tunnelRefers row (by simp [Table.mem_iff,hrows])
    obtain ⟨-,-,hconnections,-⟩ := Tables.ext_iff.mp hrest
    simp only [besideTunnels] at hconnections
    rwa [hconnections] at hrefers

theorem execAll_insertSettings {rows : List SettingRow} :
    d.execAll (rows.map .insertSetting) = .ok e ↔
      e.appSettings.rows = d.appSettings.rows ++ rows ∧ e.besideSettings = d.besideSettings := by
  refine execAll_inserts _ (fun d => d.appSettings.rows) besideSettings ?_ ?_ ?_
  · intro d e hrows hrest
    obtain ⟨hgroups,hcredentials,hconnections,hknownHosts,htunnels,-⟩ := Tables.ext_iff.mp hrest
    exact Database.ext (Tables.ext hgroups hcredentials hconnections hknownHosts htunnels (Table.ext hrows))
  · intro d e row h
    obtain ⟨appSettings,hinsert,he⟩ := Tables.exec_insertSetting_ok.mp (exec_ok_iff.mp h)
    simp [he,besideSettings,(Table.insert_eq_some_iff.mp hinsert).2]
  · intro d e row rows hrows _
    obtain ⟨appSettings,happSettings⟩ := Table.insert_of_rows_append hrows
    exact exec_ok_of (Tables.exec_insertSetting_ok.mpr ⟨appSettings,happSettings,rfl⟩)

/-- Every table the clearing of which the code asks for. -/
def allTables : List TableName :=
  [.tunnels,.connections,.credentials,.connectionGroups,.knownHosts,.appSettings]

/-- Clearing never fails, and leaves nothing. -/
theorem execAll_clear : d.execAll (allTables.map .clear) = .ok e ↔ e = .empty := by
  have hclear : ∃ c, d.execAll (allTables.map .clear) = .ok c ∧ c.toTables = .empty := by
    obtain ⟨d₁,h₁⟩ := exec_ok_of (d := d) (rfl : d.toTables.exec (.clear .tunnels) = .ok _)
    obtain ⟨d₂,h₂⟩ := exec_ok_of (rfl : d₁.toTables.exec (.clear .connections) = .ok _)
    obtain ⟨d₃,h₃⟩ := exec_ok_of (rfl : d₂.toTables.exec (.clear .credentials) = .ok _)
    obtain ⟨d₄,h₄⟩ := exec_ok_of (rfl : d₃.toTables.exec (.clear .connectionGroups) = .ok _)
    obtain ⟨d₅,h₅⟩ := exec_ok_of (rfl : d₄.toTables.exec (.clear .knownHosts) = .ok _)
    obtain ⟨d₆,h₆⟩ := exec_ok_of (rfl : d₅.toTables.exec (.clear .appSettings) = .ok _)
    refine ⟨d₆,by simp [allTables,execAll,h₁,h₂,h₃,h₄,h₅,h₆],?_⟩
    have e₂ := Except.ok.inj (exec_ok_iff.mp h₂)
    have e₃ := Except.ok.inj (exec_ok_iff.mp h₃)
    have e₄ := Except.ok.inj (exec_ok_iff.mp h₄)
    have e₅ := Except.ok.inj (exec_ok_iff.mp h₅)
    have e₆ := Except.ok.inj (exec_ok_iff.mp h₆)
    rw [← e₆,← e₅,← e₄,← e₃,← e₂]
    apply Tables.ext <;> apply Table.ext <;>
      simp [Tables.deleteConnections,Tables.deleteCredentials,Tables.empty,Table.keepRows,Table.mapRows]
  obtain ⟨c,hc,hempty⟩ := hclear
  obtain rfl : c = .empty := Database.ext hempty
  rw [hc,Except.ok.injEq,eq_comm]

end Database

namespace StorageRepository
open Execution

/-- A batch succeeds when no call fails and the database takes every statement. -/
theorem forEach_execute_ok {error : String → AppError} {statements : List Statement}
    {s s' : StorageRepository} : forEach (execute error) statements s = .ok () s' ↔
      s.Spared statements.length ∧ ∃ d, s.database.execAll statements = .ok d ∧
        s' = (s.ticks statements.length).store d := by
  induction statements generalizing s with
  | nil =>
    simp only [forEach,pure_ok,length_nil,Database.execAll,Except.ok.injEq,exists_eq_left',
      ticks_zero,store_self]
    exact ⟨fun h => ⟨s.spared_zero,h.2.symm⟩,fun h => ⟨trivial,h.2.symm⟩⟩
  | cons statement statements ih =>
    simp only [forEach_cons_ok,execute_ok,Database.execAll_cons_ok,length_cons,
      Nat.add_comm _ 1]
    constructor
    · rintro ⟨_,⟨hfault,c,hc,rfl⟩,hrest⟩
      obtain ⟨hspared,d,hd,rfl⟩ := ih.mp hrest
      refine ⟨(spared_add (by simp) (by simp)).mpr ⟨spared_one.mpr hfault,hspared⟩,d,
        ⟨c,hc,by simpa using hd⟩,?_⟩
      rw [ticks_store,store_store,advance_eq_ticks,← ticks_store,ticks_ticks]
    · rintro ⟨hspared,d,⟨c,hc,hd⟩,rfl⟩
      obtain ⟨hfault,hspared⟩ := (spared_add (t := s.advance.store c) (by simp) (by simp)).mp hspared
      refine ⟨_,⟨spared_one.mp hfault,c,hc,rfl⟩,ih.mpr ⟨hspared,d,by simpa using hd,?_⟩⟩
      rw [ticks_store,ticks_store,store_store,advance_eq_ticks,← ticks_store,← ticks_store,ticks_ticks]

end StorageRepository
end Mxterm
