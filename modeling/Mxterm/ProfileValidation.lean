import Mxterm.ConnectionValidation
import Mxterm.Execution

/-! `validate_profile_input` and `validate_credential_input`: what a form may store, for the
five protocols and the two kinds of account. -/
namespace Mxterm.ProfileValidation

open Text ConnectionValidation

def ConnectionProtocol.hostMissing : ConnectionProtocol → String
  | .ssh => "请填写 SSH 主机。"
  | .rdp => "请填写 RDP 主机。"
  | .vnc => "请填写 VNC 主机。"
  | .telnet => "请填写 Telnet 主机。"
  | .serial => "请选择串口。"

def ConnectionProtocol.portInvalid : ConnectionProtocol → String
  | .ssh => "SSH 端口无效。"
  | .rdp => "RDP 端口无效。"
  | .vnc => "VNC 端口无效。"
  | .telnet => "Telnet 端口无效。"
  | .serial => "串口占位端口无效。"

def ConnectionProtocol.usernameMissing : ConnectionProtocol → String
  | .ssh => "请填写 SSH 用户名。"
  | .rdp => "请填写 RDP 用户名。"
  | .vnc => "请填写 VNC 用户名。"
  | .telnet => "请填写 Telnet 用户名。"
  | .serial => "请选择串口。"

def normalizeCredentialMode (input : ConnectionProfileInput) : ConnectionCredentialMode :=
  if input.authKind.isSome then .inline else input.credentialMode

def normalizeInlineAuthKind (input : ConnectionProfileInput) : Option ConnectionAuthKind :=
  input.inlineAuthKind <|> input.authKind

def inlinePassword (input : ConnectionProfileInput) : Option String :=
  trimOptional input.inlinePassword <|> trimOptional input.password

def inlinePrivateKeyPath (input : ConnectionProfileInput) : Option String :=
  trimOptional input.inlinePrivateKeyPath <|> trimOptional input.privateKeyPath

def inlinePrivateKeyPassphrase (input : ConnectionProfileInput) : Option String :=
  trimOptional input.inlinePrivateKeyPassphrase <|> trimOptional input.privateKeyPassphrase

def existingProfileId (input : ConnectionProfileInput) : Option String :=
  trimOptional input.id <|> trimOptional input.sourceConnectionId

/-- The credential columns a validated form decides, for every mode. -/
structure CredentialChoice where
  credentialId : Option String := none
  inlineAuthKind : Option ConnectionAuthKind := none
  inlinePassword : Option String := none
  inlinePasswordTouched : Bool := false
  inlinePrivateKeyPath : Option String := none
  inlinePrivateKeyPassphrase : Option String := none
  inlinePrivateKeyPassphraseTouched : Bool := false
  promptAuthKind : Option ConnectionAuthKind := none

def passwordMissing (message : String) : AppError :=
  ⟨"connection_password_missing",message,"inline password is empty",true⟩

def savedCredential (input : ConnectionProfileInput) (message : String) :
    Except AppError CredentialChoice :=
  match trimOptional input.credentialId with
  | none => .error ⟨"connection_credential_missing",message,"credential_id is empty",true⟩
  | some credentialId => .ok { credentialId := some credentialId }

/-- A password may be left out only while editing or copying a stored connection. -/
def inlinePasswordCredential (input : ConnectionProfileInput) (message : String) :
    Except AppError CredentialChoice :=
  let password := inlinePassword input
  let touched := input.inlinePasswordTouched || password.isSome
  if password = none ∧ (touched ∨ existingProfileId input = none) then
    .error (passwordMissing message)
  else .ok {
    inlineAuthKind := some .password
    inlinePassword := password
    inlinePasswordTouched := touched }

def inlinePrivateKeyCredential (input : ConnectionProfileInput) : Except AppError CredentialChoice :=
  match inlinePrivateKeyPath input with
  | none => .error ⟨"connection_private_key_missing","请选择 SSH 私钥。",
      "inline private key path is empty",true⟩
  | some path =>
    let passphrase := inlinePrivateKeyPassphrase input
    .ok {
      inlineAuthKind := some .privateKey
      inlinePrivateKeyPath := some path
      inlinePrivateKeyPassphrase := passphrase
      inlinePrivateKeyPassphraseTouched :=
        input.inlinePrivateKeyPassphraseTouched || passphrase.isSome }

def sshCredential (input : ConnectionProfileInput) : Except AppError CredentialChoice :=
  match normalizeCredentialMode input with
  | .saved => savedCredential input "请选择保存的凭据。"
  | .inline =>
    match (normalizeInlineAuthKind input).getD .password with
    | .password => inlinePasswordCredential input "请填写 SSH 密码。"
    | .privateKey => inlinePrivateKeyCredential input
  | .prompt => .ok { promptAuthKind := some (input.promptAuthKind.getD .password) }

/-- RDP and VNC take a saved account, a password, or a prompt; never a private key. -/
def passwordOnlyCredential (input : ConnectionProfileInput) (savedMessage passwordMessage : String)
    (unsupported : String → AppError) : Except AppError CredentialChoice :=
  match normalizeCredentialMode input with
  | .saved => savedCredential input savedMessage
  | .inline =>
    match (normalizeInlineAuthKind input).getD .password with
    | .password => inlinePasswordCredential input passwordMessage
    | kind => .error (unsupported s!"inline_auth_kind={ConnectionAuthKind.debug kind}")
  | .prompt => .ok {}

def profileName (input : ConnectionProfileInput) (fallback : String) : String :=
  (trimOptional input.name).getD fallback

/-- The fields every protocol fills the same way. -/
def validatedProfile (input : ConnectionProfileInput) (protocol : ConnectionProtocol)
    (name host username : String) (port : UInt16) (mode : ConnectionCredentialMode)
    (choice : CredentialChoice) : ValidatedConnectionProfileInput where
  id := trimOptional input.id
  protocol := protocol
  name := name
  group := trimOptional input.group
  host := host
  port := port
  username := username
  credentialMode := mode
  credentialId := choice.credentialId
  inlineAuthKind := choice.inlineAuthKind
  inlinePassword := choice.inlinePassword
  inlinePasswordTouched := choice.inlinePasswordTouched
  inlinePrivateKeyPath := choice.inlinePrivateKeyPath
  inlinePrivateKeyPassphrase := choice.inlinePrivateKeyPassphrase
  inlinePrivateKeyPassphraseTouched := choice.inlinePrivateKeyPassphraseTouched
  promptAuthKind := choice.promptAuthKind
  notes := trimOptional input.notes

def validateSshProfileInput (family : X11Display.TargetFamily) (input : ConnectionProfileInput)
    (host username : String) : Except AppError ValidatedConnectionProfileInput := do
  let choice ← sshCredential input
  let proxy ← validateProxyConfig input.proxy
  let jump ← validateJumpConfig input.jump
  let advanced ← validateAdvancedConfig family input.advanced
  let name := profileName input s!"{username}@{host}"
  let profile := validatedProfile input .ssh name host username input.port
    (normalizeCredentialMode input) choice
  .ok { profile with proxy, jump, advanced }

def validateRdpProfileInput (input : ConnectionProfileInput) (host username : String) :
    Except AppError ValidatedConnectionProfileInput := do
  let host ← validateRdpLineValue host "host"
  let username ← validateRdpLineValue username "username"
  let choice ← passwordOnlyCredential input "请选择保存的 RDP 密码凭据。" "请填写 RDP 密码。"
    fun raw => ⟨"rdp_credential_kind_unsupported","RDP 内置凭据仅支持密码。",raw,true⟩
  let rdp ← validateRdpConfig (input.rdp.getD {})
  let name := profileName input s!"{username}@{host}"
  let profile := validatedProfile input .rdp name host username input.port
    (normalizeCredentialMode input) choice
  .ok { profile with rdp := some rdp }

def validateVncProfileInput (input : ConnectionProfileInput) (host username : String) :
    Except AppError ValidatedConnectionProfileInput := do
  let host ← validateVncLineValue host "host"
  let username ← validateVncLineValue username "username"
  let choice ← passwordOnlyCredential input "请选择保存的 VNC 密码凭据。" "请填写 VNC 密码。"
    fun raw => ⟨"vnc_credential_kind_unsupported","VNC 内置凭据仅支持密码。",raw,true⟩
  let vnc ← validateVncConfig (input.vnc.getD {})
  let name := profileName input s!"{username}@{host}"
  let profile := validatedProfile input .vnc name host username input.port
    (normalizeCredentialMode input) choice
  .ok { profile with vnc := some vnc }

def validateTelnetProfileInput (input : ConnectionProfileInput) (host : String) :
    Except AppError ValidatedConnectionProfileInput :=
  let name := profileName input s!"Telnet {host}:{input.port}"
  .ok { validatedProfile input .telnet name host "" input.port .prompt {} with
    telnet := some (input.telnet.getD {}) }

def validateSerialProfileInput (input : ConnectionProfileInput) (host : String) :
    Except AppError ValidatedConnectionProfileInput :=
  let serial := input.serial.getD {}
  let portName := (trimOptional (some serial.portName)).getD host
  let serial := { serial with portName }
  if trim serial.portName = "" then
    .error ⟨"serial_port_missing","请选择串口。","serial port_name is empty",true⟩
  else if serial.baudRate = 0 then
    .error ⟨"serial_baud_rate_invalid","串口波特率无效。","serial baud_rate is 0",true⟩
  else
    let name := profileName input s!"串口 {serial.portName}"
    .ok { validatedProfile input .serial name serial.portName "" 1 .prompt {} with
      serial := some serial }

def validateProfileInput (family : X11Display.TargetFamily) (input : ConnectionProfileInput) :
    Except AppError ValidatedConnectionProfileInput :=
  let host := trim input.host
  let username := trim input.username
  if host = "" then
    .error ⟨"connection_host_missing",ConnectionProtocol.hostMissing input.protocol,
      "host is empty",true⟩
  else if input.port = 0 then
    .error ⟨"connection_port_invalid",ConnectionProtocol.portInvalid input.protocol,
      "port is 0",true⟩
  else match input.protocol with
    | .telnet => validateTelnetProfileInput input host
    | .serial => validateSerialProfileInput input host
    | protocol =>
      if username = "" then
        .error ⟨"connection_username_missing",ConnectionProtocol.usernameMissing protocol,
          "username is empty",true⟩
      else match protocol with
        | .ssh => validateSshProfileInput family input host username
        | .rdp => validateRdpProfileInput input host username
        | _ => validateVncProfileInput input host username

def validateCredentialInput (input : CredentialProfileInput) :
    Except AppError ValidatedCredentialProfileInput := do
  let some name := trimOptional input.name
    | .error ⟨"credential_name_missing","请填写账号名称。","credential name is empty",true⟩
  let some username := trimOptional input.username
    | .error ⟨"credential_username_missing","请填写账号用户名。","credential username is empty",true⟩
  let password := trimOptional input.password
  let privateKeyPath := trimOptional input.privateKeyPath
  let privateKeyPassphrase := trimOptional input.privateKeyPassphrase
  let passwordTouched := input.passwordTouched || password.isSome
  let privateKeyPassphraseTouched :=
    input.privateKeyPassphraseTouched || privateKeyPassphrase.isSome
  let id := trimOptional input.id
  let notes := trimOptional input.notes
  match input.kind with
  | .password =>
    if password = none ∧ (passwordTouched ∨ id = none) then
      .error ⟨"credential_password_missing","请填写账号密码。","credential password is empty",true⟩
    else .ok ⟨id,name,username,.password,password,passwordTouched,none,none,false,notes⟩
  | .privateKey =>
    if privateKeyPath = none then
      .error ⟨"credential_private_key_missing","请填写账号私钥路径。",
        "credential private key path is empty",true⟩
    else .ok ⟨id,name,username,.privateKey,none,false,privateKeyPath,privateKeyPassphrase,
      privateKeyPassphraseTouched,notes⟩

/-- What the store relies on: the form's own identifier and group, and an authentication kind
exactly for the connections that keep their credential inline. -/
structure Accepted (input : ConnectionProfileInput) (validated : ValidatedConnectionProfileInput) :
    Prop where
  id : validated.id = trimOptional input.id
  group : validated.group = trimOptional input.group
  inlineAuthKind : validated.inlineAuthKind.isSome ↔ validated.credentialMode = .inline

variable {input : ConnectionProfileInput} {choice : CredentialChoice}

theorem savedCredential_inlineAuthKind {message : String} (h : savedCredential input message = .ok choice) :
    choice.inlineAuthKind = none := by
  unfold savedCredential at h
  split at h <;> simp at h
  simp [← h]

theorem inlinePasswordCredential_inlineAuthKind {message : String}
    (h : inlinePasswordCredential input message = .ok choice) : choice.inlineAuthKind = some .password := by
  simp only [inlinePasswordCredential] at h
  split at h <;> simp at h
  simp [← h]

theorem inlinePrivateKeyCredential_inlineAuthKind (h : inlinePrivateKeyCredential input = .ok choice) :
    choice.inlineAuthKind = some .privateKey := by
  unfold inlinePrivateKeyCredential at h
  split at h <;> simp at h
  simp [← h]

theorem sshCredential_inlineAuthKind (h : sshCredential input = .ok choice) :
    choice.inlineAuthKind.isSome ↔ normalizeCredentialMode input = .inline := by
  unfold sshCredential at h
  split at h
  · simp_all [savedCredential_inlineAuthKind h]
  · split at h
    · simp_all [inlinePasswordCredential_inlineAuthKind h]
    · simp_all [inlinePrivateKeyCredential_inlineAuthKind h]
  · simp only [Except.ok.injEq] at h
    simp_all [← h]

theorem passwordOnlyCredential_inlineAuthKind {savedMessage passwordMessage : String}
    {unsupported : String → AppError}
    (h : passwordOnlyCredential input savedMessage passwordMessage unsupported = .ok choice) :
    choice.inlineAuthKind.isSome ↔ normalizeCredentialMode input = .inline := by
  unfold passwordOnlyCredential at h
  split at h
  · simp_all [savedCredential_inlineAuthKind h]
  · split at h
    · simp_all [inlinePasswordCredential_inlineAuthKind h]
    · simp at h
  · simp only [Except.ok.injEq] at h
    simp_all [← h]

theorem validateProfileInput_accepted {family : X11Display.TargetFamily}
    {validated : ValidatedConnectionProfileInput} (h : validateProfileInput family input = .ok validated) :
    Accepted input validated := by
  unfold validateProfileInput at h
  simp only at h
  split at h
  · simp at h
  split at h
  · simp at h
  split at h
  · simp only [validateTelnetProfileInput,Except.ok.injEq] at h
    subst h
    exact ⟨rfl,rfl,by simp [validatedProfile]⟩
  · unfold validateSerialProfileInput at h
    simp only at h
    split at h
    · simp at h
    split at h
    · simp at h
    simp only [Except.ok.injEq] at h
    subst h
    exact ⟨rfl,rfl,by simp [validatedProfile]⟩
  split at h
  · simp at h
  split at h
  · simp only [validateSshProfileInput,Execution.except_bind_ok,Except.ok.injEq] at h
    obtain ⟨choice,hchoice,_,-,_,-,_,-,rfl⟩ := h
    exact ⟨rfl,rfl,sshCredential_inlineAuthKind hchoice⟩
  · simp only [validateRdpProfileInput,Execution.except_bind_ok,Except.ok.injEq] at h
    obtain ⟨_,-,_,-,choice,hchoice,_,-,rfl⟩ := h
    exact ⟨rfl,rfl,passwordOnlyCredential_inlineAuthKind hchoice⟩
  · simp only [validateVncProfileInput,Execution.except_bind_ok,Except.ok.injEq] at h
    obtain ⟨_,-,_,-,choice,hchoice,_,-,rfl⟩ := h
    exact ⟨rfl,rfl,passwordOnlyCredential_inlineAuthKind hchoice⟩

theorem validateCredentialInput_id {input : CredentialProfileInput}
    {validated : ValidatedCredentialProfileInput}
    (h : validateCredentialInput input = .ok validated) : validated.id = trimOptional input.id := by
  unfold validateCredentialInput at h
  split at h
  · split at h
    · simp only at h
      split at h <;> split at h <;> simp only [Except.ok.injEq,reduceCtorEq] at h
      · subst h; rfl
      · subst h; rfl
    · simp at h
  · simp at h

end Mxterm.ProfileValidation
