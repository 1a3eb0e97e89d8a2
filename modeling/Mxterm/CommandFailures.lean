import Mxterm.CommandPlans

/-! What a command that fails leaves behind. Nothing is undone, so the tables and the secrets are as they were exactly
  if
no call fails after one that has changed something. -/
namespace Mxterm.CommandPlans

open PlannedCall hiding read store

open Execution StorageRepository RepositoryCommands ProfileValidation SecretReference SecretOwnership List
open CallSequences (Keeps Shows Lasting)

/-! ## What the calls of a plan touch -/

variable {τ : Type} {view : Data → τ} {calls : List PlannedCall}

theorem keeps_read : Keeps view PlannedCall.read.call where
  effect h := by rw [← Option.some.inj h]
  left _ _ := rfl

theorem keeps_refuse : Keeps view refuse.call where
  effect h := by cases h
  left _ _ := rfl

theorem keeps_store (f : Database → τ) (account : String) (secret : Option String) :
    Keeps (fun d => f d.1) (PlannedCall.store account secret).call where
  effect h := by rw [← Option.some.inj h]
  left fault _ := by cases fault <;> rfl

theorem effect_write {statement : Statement} {d e : Data} (h : (write statement).effect d = some e) :
    d.1.exec statement = .ok e.1 ∧ e.2 = d.2 := by
  obtain ⟨database,hexec,rfl⟩ := Option.map_eq_some_iff.mp h
  cases hresult : d.1.exec statement with
  | error raw =>
    rw [hresult] at hexec
    cases hexec
  | ok e =>
    rw [hresult] at hexec
    cases hexec
    exact ⟨rfl,rfl⟩

theorem keeps_write (statement : Statement) : Keeps (fun d : Data => d.2) (write statement).call where
  effect h := (effect_write h).2
  left _ _ := rfl

def groups (d : Data) : Table SyncConnectionGroup.id := d.1.connectionGroups

theorem keeps_upsertConnection (row : ConnectionRow) :
    Keeps groups (write (.upsertConnection row)).call where
  effect h := by
    obtain ⟨-,ht⟩ := Tables.exec_upsertConnection_ok.mp (Database.exec_ok_iff.mp (effect_write h).1)
    unfold groups
    rw [ht]
  left _ _ := rfl

theorem shows_store (account : String) (secret : Option String) :
    Shows (fun d : Data => d.2) (PlannedCall.store account secret).call := by
  intro d e h hview
  cases h
  exact Prod.ext rfl hview

theorem shows_write (statement : Statement) : Shows (fun d : Data => d.1) (write statement).call :=
  fun h hview => Prod.ext hview (effect_write h).2

theorem shows_insertGroup (row : SyncConnectionGroup) : Shows groups (write (.insertGroup row)).call := by
  intro d e h hview
  obtain ⟨-,connectionGroups,-,ht⟩ := Tables.exec_insertGroup_ok.mp (Database.exec_ok_iff.mp (effect_write h).1)
  have hgroups : connectionGroups = d.1.connectionGroups := by
    unfold groups at hview
    rw [ht] at hview
    exact hview
  rw [hgroups] at ht
  exact Prod.ext (Database.ext ht) (effect_write h).2

/-! ## Plans whose changes last -/

abbrev LastingPlan (calls : List PlannedCall) : Prop := Lasting (calls.map call)

/-- No call of the plan touches what is seen in `view`. -/
def AllKeep (view : Data → τ) (calls : List PlannedCall) : Prop := ∀ c ∈ calls, Keeps view c.call

theorem AllKeep.append {bs : List PlannedCall} (h : AllKeep view calls) (hbs : AllKeep view bs) :
    AllKeep view (calls ++ bs) := by
  intro c hc
  rcases mem_append.mp hc with hc | hc
  · exact h c hc
  · exact hbs c hc

theorem lasting_cons {c : PlannedCall} (hshows : Shows view c.call) (hkeeps : AllKeep view calls)
    (h : LastingPlan calls) : LastingPlan (c :: calls) := by
  refine ⟨⟨τ,view,hshows,?_⟩,h⟩
  intro b hb
  obtain ⟨c,hc,rfl⟩ := mem_map.mp hb
  exact hkeeps c hc

theorem lasting_nil : LastingPlan [] := trivial

theorem lasting_read (h : LastingPlan calls) : LastingPlan (.read :: calls) := by
  have hshows : Shows (fun _ : Data => ()) PlannedCall.read.call := fun he _ => (Option.some.inj he).symm
  exact lasting_cons hshows (fun _ _ => ⟨fun _ => rfl,fun _ _ => rfl⟩) h

theorem lasting_refuse (h : LastingPlan calls) : LastingPlan (.refuse :: calls) := by
  have hshows : Shows (fun _ : Data => ()) refuse.call := by
    intro d e he
    cases he
  exact lasting_cons hshows (fun _ _ => ⟨fun _ => rfl,fun _ _ => rfl⟩) h

/-- The calls that are made for a secret. -/
inductive SecretCalls : List PlannedCall → Prop
  | nothing : SecretCalls []
  | refuse : SecretCalls [.refuse]
  | store (account : String) (secret : Option String) : SecretCalls [.store account secret]
  | missing : SecretCalls [.read,.refuse]
  | copy (account : String) (secret : Option String) : SecretCalls [.read,.store account secret]

theorem secretCalls_keepPlan (r : Except AppError SecretColumns) : SecretCalls (keepPlan r).1 := by
  cases r with
  | ok columns => exact .nothing
  | error e => exact .refuse

variable {t : Tables} {id : String}

theorem secretCalls_keepInlinePlan {secrets : Entries} {authKind : ConnectionAuthKind}
    {existing source : Option ConnectionRow} :
    SecretCalls (keepInlinePlan t secrets id authKind existing source).1 := by
  cases source with
  | none => exact secretCalls_keepPlan _
  | some row =>
    rw [keepInlinePlan]
    unfold copyPlan
    split
    · exact secretCalls_keepPlan _
    · cases hreference : inlineReference row with
      | none =>
        cases authKind with
        | password => exact .refuse
        | privateKey => exact .nothing
      | some reference =>
        dsimp only
        split
        · exact .missing
        · exact .copy _ _

theorem secretCalls_inlinePlan {secrets : Entries} {validated : ValidatedConnectionProfileInput}
    {existing source : Option ConnectionRow} : SecretCalls (inlinePlan t secrets id validated existing source).1 := by
  unfold inlinePlan
  split
  · split
    · exact .store _ _
    · split
      · exact secretCalls_keepInlinePlan
      · exact .refuse
  · split
    · exact .store _ _
    · split
      · exact secretCalls_keepInlinePlan
      · exact .nothing
  · exact .nothing

theorem secretCalls_credentialSecretPlan {validated : ValidatedCredentialProfileInput}
    {existing : Option CredentialRow} : SecretCalls (credentialSecretPlan id validated existing).1 := by
  unfold credentialSecretPlan
  split
  · split
    · exact .store _ _
    · split
      · exact secretCalls_keepPlan _
      · exact .refuse
  · split
    · exact .store _ _
    · split
      · exact secretCalls_keepPlan _
      · exact .nothing

/-- The row is written after its secret. -/
theorem SecretCalls.lasting (h : SecretCalls calls) (statement : Statement) :
    LastingPlan (calls ++ [.write statement,.read]) := by
  have hwrite : LastingPlan [.write statement,.read] := by
    apply lasting_cons (shows_write statement) _ (lasting_read lasting_nil)
    intro c hc
    rw [mem_singleton.mp hc]
    exact keeps_read
  have hstore (account : String) (secret : Option String) :
      LastingPlan (.store account secret :: [.write statement,.read]) := by
    apply lasting_cons (shows_store account secret) _ hwrite
    intro c hc
    rcases mem_cons.mp hc with rfl | hc
    · exact keeps_write statement
    · rw [mem_singleton.mp hc]
      exact keeps_read
  cases h with
  | nothing => exact hwrite
  | refuse => exact lasting_refuse hwrite
  | store account secret => exact hstore account secret
  | missing => exact lasting_read (lasting_refuse hwrite)
  | copy account secret => exact lasting_read (hstore account secret)

theorem SecretCalls.keep_groups (h : SecretCalls calls) : AllKeep groups calls := by
  have hstore (account : String) (secret : Option String) :
      Keeps groups (PlannedCall.store account secret).call :=
    keeps_store (fun database => database.connectionGroups) account secret
  intro c hc
  cases h <;> simp only [mem_cons,not_mem_nil,or_false] at hc
  case refuse => exact hc ▸ keeps_refuse
  case store => exact hc ▸ hstore _ _
  case missing =>
    rcases hc with rfl | rfl
    · exact keeps_read
    · exact keeps_refuse
  case copy =>
    rcases hc with rfl | rfl
    · exact keeps_read
    · exact hstore _ _

theorem groupPlan_lasting {fresh : Uuid} {now : String} (group : Option String) (hkeeps : AllKeep groups calls)
    (h : LastingPlan calls) : LastingPlan (groupPlan fresh now t group ++ calls) := by
  cases group with
  | none => exact h
  | some name =>
    rw [groupPlan]
    split
    · exact lasting_read h
    · exact lasting_read (lasting_cons (shows_insertGroup _) hkeeps h)

theorem sourcePlan_lasting (source : Option (Option ConnectionRow)) (h : LastingPlan calls) :
    LastingPlan (sourcePlan source ++ calls) := by
  cases source with
  | none => exact h
  | some found =>
    cases found with
    | none => exact lasting_read (lasting_refuse h)
    | some row => exact lasting_read h

theorem sourcePlan_keep (source : Option (Option ConnectionRow)) : AllKeep view (sourcePlan source) := by
  intro c hc
  cases source with
  | none => cases hc
  | some found =>
    cases found with
    | none =>
      rcases mem_cons.mp hc with rfl | hc
      · exact keeps_read
      · rw [mem_singleton.mp hc]
        exact keeps_refuse
    | some row =>
      rw [mem_singleton.mp hc]
      exact keeps_read

theorem connectionUpsertPlan_lasting (draws : Draws) (input : ConnectionProfileInput) (now : String)
    (s : StorageRepository) : LastingPlan (connectionUpsertPlan draws input now s) := by
  unfold connectionUpsertPlan
  cases validateProfileInput s.family input with
  | error e => exact lasting_refuse lasting_nil
  | ok validated =>
    dsimp only
    split
    · exact lasting_refuse lasting_nil
    · simp only [append_assoc]
      apply lasting_read
      apply groupPlan_lasting
      · apply AllKeep.append
        · intro c hc
          rw [mem_singleton.mp hc]
          exact keeps_read
        · apply (sourcePlan_keep _).append
          apply secretCalls_inlinePlan.keep_groups.append
          intro c hc
          rcases mem_cons.mp hc with rfl | hc
          · exact keeps_upsertConnection _
          · rw [mem_singleton.mp hc]
            exact keeps_read
      · apply lasting_read
        apply sourcePlan_lasting
        exact secretCalls_inlinePlan.lasting _

theorem deletePlan_lasting (statement : Statement) (account : Option String) :
    LastingPlan (.write statement :: deletePlan account) := by
  cases account with
  | none =>
    apply lasting_cons (shows_write statement) _ lasting_nil
    intro c hc
    cases hc
  | some account =>
    apply lasting_cons (shows_write statement)
    · intro c hc
      rw [mem_singleton.mp hc]
      exact keeps_store id account none
    · apply lasting_cons (shows_store account none) _ lasting_nil
      intro c hc
      cases hc

theorem plan_lasting (s : StorageRepository) (command : Command) : LastingPlan (plan s command) := by
  cases command with
  | connectionUpsert draws input now => exact connectionUpsertPlan_lasting draws input now s
  | credentialUpsert draws input now =>
    rw [plan,credentialUpsertPlan]
    cases validateCredentialInput input with
    | error e => exact lasting_refuse lasting_nil
    | ok validated =>
      exact lasting_read (lasting_read (secretCalls_credentialSecretPlan.lasting _))
  | connectionDelete id =>
    rw [plan,connectionDeletePlan]
    split
    · exact lasting_read (lasting_refuse lasting_nil)
    · exact lasting_read (deletePlan_lasting _ _)
  | credentialDelete id =>
    rw [plan,credentialDeletePlan]
    split
    · exact lasting_read (lasting_refuse lasting_nil)
    · split
      · exact lasting_read (lasting_read (lasting_refuse lasting_nil))
      · exact lasting_read (lasting_read (deletePlan_lasting _ _))

/-! ## What is left behind -/

/-- Until a call of the plan has changed something, any may fail that has not just done so; after that none does. -/
def FailsEarly (s : StorageRepository) (command : Command) : Prop :=
  CallSequences.FailsEarly s.faults s.clock ((plan s command).map call) (data s)

/-- A command that fails leaves the tables and the secrets as they were exactly if it fails early. -/
theorem left_unchanged_iff (s : StorageRepository) (command : Command) :
    (∀ e s', command.run s = .error e s' → s'.database = s.database ∧ s'.secrets = s.secrets) ↔
      FailsEarly s command := by
  rw [FailsEarly,← CallSequences.unchanged_iff (plan_lasting s command)]
  have hperforms := performs_run (s := s) command
  change _ ↔ ((runPlan (plan s command) s).1 = false → (runPlan (plan s command) s).2 = data s)
  cases hrun : command.run s with
  | ok a t =>
    rw [(hperforms.ok hrun).2.2.2]
    constructor
    · exact fun _ h => nomatch h
    · exact fun _ e s' h => nomatch h
  | error e t =>
    rw [hperforms.error hrun]
    constructor
    · intro h _
      obtain ⟨hdatabase,hsecrets⟩ := h e t rfl
      exact Prod.ext hdatabase hsecrets
    · intro h e' s' hs'
      cases hs'
      have hdata := h rfl
      exact ⟨congrArg Prod.fst hdata,congrArg Prod.snd hdata⟩

/-- The statement that writes the row of a new account fails after the vault has taken its password. -/
def strikesRow (n : ℕ) : Option Fault := if n = 3 then some (.refused "disk I/O error") else none

def newAccount : Command :=
  .credentialUpsert ⟨⟨0⟩,⟨1⟩⟩ {
    id := some "a"
    name := some "a"
    username := some "root"
    kind := .password
    password := some "secret" } "1"

theorem secret_of_unsaved_account : ¬ ∀ (s : StorageRepository) (command : Command) e s',
    command.run s = .error e s' → s'.database = s.database ∧ s'.secrets = s.secrets := by
  intro h
  have hrun : ∃ e s', newAccount.run (.empty strikesRow .unix) = .error e s' ∧
      s'.secrets (accounts (.credential "a") .password) = some "secret" := ⟨_,_,rfl,by decide +kernel⟩
  obtain ⟨e,s',hrun,hsecret⟩ := hrun
  rw [(h _ _ e s' hrun).2] at hsecret
  cases hsecret

end Mxterm.CommandPlans
