import Mxterm.ConnectionTypes

/-! The accounts under which `storage_vault.rs` keeps secrets: every connection and every
saved account owns one account for each kind of secret. -/
namespace Mxterm

inductive SecretKind
  | password | privateKeyPassphrase | inlinePassword | inlinePrivateKeyPassphrase
  deriving DecidableEq

namespace SecretKind

def accountSuffix : SecretKind → String
  | .password => "password"
  | .privateKeyPassphrase => "private_key_passphrase"
  | .inlinePassword => "inline_password"
  | .inlinePrivateKeyPassphrase => "inline_private_key_passphrase"

theorem accountSuffix_injective {k l : SecretKind} (h : k.accountSuffix = l.accountSuffix) :
    k = l := by
  cases k <;> cases l <;> first | rfl | (exact absurd h (by decide))

theorem colon_notMem_accountSuffix (k : SecretKind) : ':' ∉ k.accountSuffix.toList := by
  cases k <;> decide

/-- The kind of the secret a connection keeps inline. -/
def ofInline : ConnectionAuthKind → SecretKind
  | .password => .inlinePassword
  | .privateKey => .inlinePrivateKeyPassphrase

/-- The kind of the secret of a saved account. -/
def ofSaved : ConnectionAuthKind → SecretKind
  | .password => .password
  | .privateKey => .privateKeyPassphrase

end SecretKind

def vaultService : String := "mxterm"

structure SecretReference where
  service : String
  account : String
  slotId : String
  kind : SecretKind
  deriving DecidableEq

namespace SecretReference

def connectionAccount (connectionId : String) (kind : SecretKind) : String :=
  "connection:" ++ connectionId ++ ":" ++ kind.accountSuffix

def credentialAccount (credentialId : String) (kind : SecretKind) : String :=
  "credential:" ++ credentialId ++ ":" ++ kind.accountSuffix

def connection (connectionId : String) (kind : SecretKind) : SecretReference :=
  ⟨vaultService,connectionAccount connectionId kind,connectionAccount connectionId kind,kind⟩

def credential (credentialId : String) (kind : SecretKind) : SecretReference :=
  ⟨vaultService,credentialAccount credentialId kind,credentialAccount credentialId kind,kind⟩

/-- A text splits in one way at its last colon. -/
theorem append_colon_injective {a b u v : List Char} (hu : ':' ∉ u) (hv : ':' ∉ v)
    (h : a ++ ':' :: u = b ++ ':' :: v) : a = b ∧ u = v := by
  induction a generalizing b with
  | nil =>
    cases b with
    | nil => simpa using h
    | cons c cs =>
      simp only [List.nil_append,List.cons_append,List.cons.injEq] at h
      exact absurd (h.2 ▸ List.mem_append_right cs List.mem_cons_self) hu
  | cons c cs ih =>
    cases b with
    | nil =>
      simp only [List.nil_append,List.cons_append,List.cons.injEq] at h
      exact absurd (h.2 ▸ List.mem_append_right cs List.mem_cons_self) hv
    | cons d ds =>
      simp only [List.cons_append,List.cons.injEq] at h ⊢
      have hrest := ih h.2
      exact ⟨⟨h.1,hrest.1⟩,hrest.2⟩

variable {i j : String} {k l : SecretKind}

theorem account_injective {before : String}
    (h : before ++ i ++ ":" ++ k.accountSuffix = before ++ j ++ ":" ++ l.accountSuffix) : i = j ∧ k = l := by
  have hlist : i.toList ++ ':' :: k.accountSuffix.toList = j.toList ++ ':' :: l.accountSuffix.toList := by
    simpa using congrArg String.toList h
  have hsplit := append_colon_injective k.colon_notMem_accountSuffix l.colon_notMem_accountSuffix hlist
  exact ⟨String.toList_injective hsplit.1,
    SecretKind.accountSuffix_injective (String.toList_injective hsplit.2)⟩

/-- No two connections share an account, whatever colons their identifiers hold. -/
@[simp] theorem connectionAccount_inj : connectionAccount i k = connectionAccount j l ↔ i = j ∧ k = l :=
  ⟨account_injective,by rintro ⟨rfl,rfl⟩; rfl⟩

@[simp] theorem credentialAccount_inj : credentialAccount i k = credentialAccount j l ↔ i = j ∧ k = l :=
  ⟨account_injective,by rintro ⟨rfl,rfl⟩; rfl⟩

@[simp] theorem connectionAccount_ne_credentialAccount (i j : String) (k l : SecretKind) :
    connectionAccount i k ≠ credentialAccount j l := by
  intro h
  have hlist := congrArg (fun s : String => s.toList.take 3) h
  simp [connectionAccount,credentialAccount] at hlist

@[simp] theorem credentialAccount_ne_connectionAccount (i j : String) (k l : SecretKind) :
    credentialAccount i k ≠ connectionAccount j l :=
  (connectionAccount_ne_credentialAccount j i l k).symm

@[simp] theorem connection_account (i : String) (k : SecretKind) :
    (connection i k).account = connectionAccount i k := rfl

@[simp] theorem connection_slotId (i : String) (k : SecretKind) :
    (connection i k).slotId = connectionAccount i k := rfl

@[simp] theorem credential_account (i : String) (k : SecretKind) :
    (credential i k).account = credentialAccount i k := rfl

@[simp] theorem credential_slotId (i : String) (k : SecretKind) :
    (credential i k).slotId = credentialAccount i k := rfl

end SecretReference
end Mxterm
