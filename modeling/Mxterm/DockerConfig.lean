import Mxterm.Base64
import Mxterm.DockerLogStreams
import Mxterm.RemoteCommands
import Mxterm.ShellSteps

/-! Saving the configuration of the Docker daemon (`docker_tools.rs`): one script of a shell, of which every command may
fail. -/
namespace Mxterm.Docker

open DockerLogStreams (requireValue)
open RemoteCommands (ExecOutput)
open ShellSteps Command

/-! ## Answers of a command -/

def outputDetail (output : ExecOutput) : String :=
  let stderr := Text.trim (Utf8.decodeLossy output.stderr)
  let stdout := Text.trim (Utf8.decodeLossy output.stdout)
  if stderr ≠ "" then stderr
  else if stdout ≠ "" then stdout
  else "exit_status=" ++ match output.exitStatus with
    | some status => "Some(" ++ toString status ++ ")"
    | none => "None"

def outputText (output : ExecOutput) : Option String :=
  let detail := outputDetail output
  if Text.trim detail = "" then none else some detail

/-- The errors that are told by what the command has printed: phrases, and the code and message for them. -/
def knownErrors : List (List String × String × String) :=
  [(["docker: command not found","docker: not found","command not found: docker","no such file or directory"],
      "docker_command_missing","远端未安装 Docker CLI，或 docker 不在 PATH 中。"),
    (["permission denied","got permission denied","connect: permission denied"],
      "docker_permission_denied","当前用户没有访问 Docker 的权限。"),
    (["no such container"],"docker_container_missing","容器不存在或已被删除。"),
    (["no such image","not found: image"],"docker_image_missing","镜像不存在或已被删除。"),
    (["no such network"],"docker_network_missing","Docker 网络不存在或已被删除。")]

def ensureSuccess (lowercase : String → String) (output : ExecOutput) (code message : String) : Except AppError Unit :=
  if output.exitStatus = some 0 then .ok ()
  else
    let detail := outputDetail output
    match knownErrors.find? fun known => known.1.any (Text.contains (lowercase detail)) with
    | some (_,code,message) => .error ⟨code,message,detail,true⟩
    | none => .error ⟨code,message,detail,true⟩

/-! ## The script -/

abbrev Bytes := List UInt8

/-- The temporary file, the configuration, and the backup that this script makes of it. -/
structure Disk where
  tmp : Option Bytes
  daemon : Option Bytes
  backup : Option Bytes
  deriving DecidableEq

/-- How a command goes. One that copies and fails has written the first bytes only. -/
inductive Result
  | done
  | failed (written : ℕ)
  deriving DecidableEq

def Result.status : Result → ℕ
  | .done => 0
  | .failed _ => 1

/-- What a command that copies leaves in its target. -/
def Result.copied (source : Bytes) : Result → Bytes
  | .done => source
  | .failed written => source.take written

/-- How the commands of the script go. -/
structure Results where
  mktemp : Result
  decode : Result
  mkdir : Result
  backup : Result
  copy : Result
  chmod : Result
  remove : Result
  deriving DecidableEq

variable (decoder : String → Bytes) (results : Results)

/-- `tmp="$(mktemp …)"` -/
def mktemp : Command Disk :=
  .step (fun disk => if results.mktemp = .done then { disk with tmp := some [] } else disk) results.mktemp.status

/-- `base64 -d > "$tmp"`, from the lines that follow the command. -/
def decode (encoded : String) : Command Disk :=
  .step (fun disk => { disk with tmp := some (results.decode.copied (decoder encoded)) }) results.decode.status

/-- `mkdir -p /etc/docker` -/
def mkdir : Command Disk := .step id results.mkdir.status

/-- `cp {path} "$backup"` -/
def makeBackup : Command Disk :=
  .step (fun disk => { disk with backup := some (results.backup.copied (disk.daemon.getD [])) }) results.backup.status

/-- `cp "$tmp" {path}` -/
def copy : Command Disk :=
  .step (fun disk => { disk with daemon := some (results.copy.copied (disk.tmp.getD [])) }) results.copy.status

/-- `chmod 0644 {path}` -/
def chmod : Command Disk := .step id results.chmod.status

/-- `rm -f "$tmp"` -/
def remove : Command Disk :=
  .step (fun disk => if results.remove = .done then { disk with tmp := none } else disk) results.remove.status

/-- The backup, where there is a configuration; the script ends where it fails. -/
def keepOld : Command Disk :=
  .when (fun disk => disk.daemon.isSome) (.orElse (makeBackup results) (.seq (remove results) (.exit 1)))

/-- The script of `engine_save_config`. -/
def saveScript (encoded : String) : Command Disk :=
  .script (.orElse (mktemp results) (.exit 1)) [
    decode decoder results encoded,
    mkdir results,
    keepOld results,
    copy results,
    .orElse (chmod results) (.step id 0),
    remove results]

/-! ## Saving -/

structure DockerEngineSaveConfigRequest where
  connectionId : String
  content : String

structure DockerActionResult where
  ok : Bool
  message : String
  output : Option String

/-- What is outside the program: the parser of JSON, the case of letters, the saved connections, and what the commands
of the script print. -/
structure Environment where
  parseJson : String → Except String Unit
  lowercase : String → String
  resolve : String → Except AppError Unit
  decoder : String → Bytes
  stdout : Bytes
  stderr : Bytes

/-- What `engine_save_config` returns, and what it leaves on the host. -/
def engineSaveConfig (env : Environment) (disk : Disk) (request : DockerEngineSaveConfigRequest) :
    Except AppError DockerActionResult × Disk :=
  let content := Text.trim request.content
  match env.parseJson content with
  | .error error => (.error ⟨"docker_engine_config_json_invalid","Docker 配置不是合法 JSON。",error,true⟩,disk)
  | .ok _ =>
    let encoded := Base64.encodePadded Base64.standard (Utf8.encode content)
    match requireValue request.connectionId "docker_connection_missing" "请选择活动连接。" with
    | .error error => (.error error,disk)
    | .ok connectionId =>
      match env.resolve connectionId with
      | .error error => (.error error,disk)
      | .ok _ =>
        let ran := saveScript env.decoder results encoded disk
        let output : ExecOutput := ⟨env.stdout,env.stderr,some ran.status⟩
        match ensureSuccess env.lowercase output "docker_engine_config_save_failed" "Docker 配置文件保存失败。" with
        | .error error => (.error error,ran.state)
        | .ok _ => (.ok ⟨true,"Docker 配置已保存。",outputText output⟩,ran.state)

/-! ## What the script leaves -/

section
variable {decoder results} {encoded : String} {disk : Disk} {source : Bytes}

theorem status_ne_zero {result : Result} (h : result ≠ .done) : result.status ≠ 0 := by
  cases result with
  | done => exact absurd rfl h
  | failed written => exact Nat.one_ne_zero

theorem status_eq_zero_iff {result : Result} : result.status = 0 ↔ result = .done := by
  cases result <;> simp [Result.status]

theorem copied_begins (result : Result) (source : Bytes) : result.copied source <+: source := by
  cases result with
  | done => exact List.prefix_rfl
  | failed written => exact List.take_prefix written source

/-- Copied twice, the whole comes out where it did each time. -/
theorem copied_copied (a b : Result) (source : Bytes) :
    b.copied (a.copied source) = source ↔ a.copied source = source ∧ b.copied source = source := by
  constructor
  · intro h
    have hfirst : a.copied source = source := by
      apply (copied_begins a source).eq_of_length_le
      calc source.length = (b.copied (a.copied source)).length := by rw [h]
        _ ≤ (a.copied source).length := (copied_begins b _).length_le
    exact ⟨hfirst,by rwa [hfirst] at h⟩
  · rintro ⟨ha,hb⟩
    rw [ha,hb]

/-- Without a temporary file nothing is done. -/
theorem saveScript_mktemp (h : results.mktemp ≠ .done) :
    saveScript decoder results encoded disk = ⟨disk,1,true⟩ := by
  have hfirst : orElse (mktemp results) (.exit 1) disk = ⟨disk,1,true⟩ := by
    rw [mktemp,orElse_step_fails _ (status_ne_zero h),if_neg h]
    rfl
  exact seq_left hfirst rfl

/-- The disk when the temporary file has been written. -/
def Disk.decoded (disk : Disk) (results : Results) (data : Bytes) : Disk :=
  { disk with tmp := some (results.decode.copied data) }

theorem saveScript_begin (h : results.mktemp = .done) : saveScript decoder results encoded disk =
    script (keepOld results) [copy results,.orElse (chmod results) (.step id 0),remove results]
      (disk.decoded results (decoder encoded)) := by
  have hfirst : orElse (mktemp results) (.exit 1) disk = ⟨{ disk with tmp := some [] },0,false⟩ := by
    rw [mktemp,h]
    exact orElse_step_zero _
  rw [saveScript,script,seq_goes hfirst rfl]
  rfl

/-- Where the backup fails, the script ends there, and the configuration is what it was. -/
theorem saveScript_backup (decoder : String → Bytes) (encoded : String) (hmktemp : results.mktemp = .done)
    {old : Bytes} (hold : disk.daemon = some old) (hbackup : results.backup ≠ .done) :
    (saveScript decoder results encoded disk).status = 1 ∧
      (saveScript decoder results encoded disk).state.daemon = some old := by
  have hkeep : ∃ state, keepOld results (disk.decoded results (decoder encoded)) = ⟨state,1,true⟩ ∧
      state.daemon = some old := by
    rw [keepOld,when_pos (by simp [Disk.decoded,hold]),makeBackup,
      orElse_step_fails _ (status_ne_zero hbackup),remove]
    refine ⟨_,rfl,?_⟩
    split_ifs <;> exact hold
  obtain ⟨state,hkeep,hdaemon⟩ := hkeep
  rw [saveScript_begin hmktemp,script,seq_left hkeep rfl]
  exact ⟨rfl,hdaemon⟩

/-- What the script leaves where it goes to its end: its status is that of the last command. -/
theorem saveScript_end (decoder : String → Bytes) (encoded : String) (hmktemp : results.mktemp = .done)
    (hbackup : disk.daemon = none ∨ results.backup = .done) :
    (saveScript decoder results encoded disk).status = results.remove.status ∧
      (saveScript decoder results encoded disk).state.daemon =
        some (results.copy.copied (results.decode.copied (decoder encoded))) ∧
      ∀ old, disk.daemon = some old → (saveScript decoder results encoded disk).state.backup = some old := by
  have hkeep : ∃ state, keepOld results (disk.decoded results (decoder encoded)) = ⟨state,0,false⟩ ∧
      state.tmp = some (results.decode.copied (decoder encoded)) ∧
      ∀ old, disk.daemon = some old → state.backup = some old := by
    cases hdaemon : disk.daemon with
    | none =>
      rw [keepOld,when_neg (by simp [Disk.decoded,hdaemon])]
      exact ⟨_,rfl,rfl,fun old hold => nomatch hold⟩
    | some text =>
      have hdone := hbackup.resolve_left (by simp [hdaemon])
      rw [keepOld,when_pos (by simp [Disk.decoded,hdaemon]),makeBackup,hdone]
      refine ⟨_,orElse_step_zero _,rfl,fun old hold => ?_⟩
      simpa [Disk.decoded,hdaemon,Result.copied] using hold
  obtain ⟨state,hkeep,htmp,hold⟩ := hkeep
  have hchmod (state : Disk) : orElse (chmod results) (.step id 0) state = ⟨state,0,false⟩ := by
    by_cases hdone : results.chmod = .done
    · rw [chmod,hdone]
      exact orElse_step_zero _
    · rw [chmod,orElse_step_fails _ (status_ne_zero hdone)]
      rfl
  rw [saveScript_begin hmktemp,script,seq_goes hkeep rfl,script,copy,seq_step,
    script,seq_goes (hchmod _) rfl,remove,htmp]
  refine ⟨rfl,?_,fun old h => ?_⟩
  · split_ifs <;> rfl
  · split_ifs <;> exact hold old h

end

/-! ## Telling the truth -/

section
variable {results} {env : Environment} {disk : Disk} {request : DockerEngineSaveConfigRequest}

/-- The content is in place where saving succeeds, and where it is not in place the old one is still there. -/
structure Truthful (returned : Except AppError DockerActionResult × Disk) (old : Option Bytes) (content : Bytes) :
    Prop where
  told : returned.1.isOk = true → returned.2.daemon = some content
  kept : returned.2.daemon ≠ some content → ∀ text, old = some text →
    returned.2.daemon = some text ∨ returned.2.backup = some text

/-- The script ends with an error, or nothing is lost on the way into the configuration. -/
def Sound (results : Results) (old : Option Bytes) (content : Bytes) : Prop :=
  results.mktemp ≠ .done ∨ (old.isSome = true ∧ results.backup ≠ .done) ∨ results.remove ≠ .done ∨
    (results.decode.copied content = content ∧ results.copy.copied content = content)

/-- The content is JSON, and there is a connection to save it over. -/
def Environment.Accepts (env : Environment) (request : DockerEngineSaveConfigRequest) : Prop :=
  env.parseJson (Text.trim request.content) = .ok () ∧ ∃ connectionId,
    requireValue request.connectionId "docker_connection_missing" "请选择活动连接。" = .ok connectionId ∧
      env.resolve connectionId = .ok ()

theorem engineSaveConfig_refused (h : ¬ env.Accepts request) :
    ∃ error, engineSaveConfig results env disk request = (.error error,disk) := by
  cases hjson : env.parseJson (Text.trim request.content) with
  | error error =>
    exists ⟨"docker_engine_config_json_invalid","Docker 配置不是合法 JSON。",error,true⟩
    simp only [engineSaveConfig,hjson]
  | ok _ =>
    cases hconnection : requireValue request.connectionId "docker_connection_missing" "请选择活动连接。" with
    | error error =>
      exists error
      simp only [engineSaveConfig,hjson,hconnection]
    | ok connectionId =>
      cases hresolve : env.resolve connectionId with
      | error error =>
        exists error
        simp only [engineSaveConfig,hjson,hconnection,hresolve]
      | ok _ => exact absurd ⟨hjson,connectionId,hconnection,hresolve⟩ h

theorem isOk_ensureSuccess (lowercase : String → String) (output : ExecOutput) (code message : String) :
    (ensureSuccess lowercase output code message).isOk = true ↔ output.exitStatus = some 0 := by
  rw [ensureSuccess]
  by_cases h : output.exitStatus = some 0
  · simp [h,Except.isOk,Except.toBool]
  · rw [if_neg h]
    refine iff_of_false ?_ h
    dsimp only
    split <;> exact Bool.false_ne_true

/-- What is returned is told by the script's status. -/
theorem engineSaveConfig_accepted (results : Results) (disk : Disk) (h : env.Accepts request) :
    let ran := saveScript env.decoder results
      (Base64.encodePadded Base64.standard (Utf8.encode (Text.trim request.content))) disk
    (engineSaveConfig results env disk request).2 = ran.state ∧
      ((engineSaveConfig results env disk request).1.isOk = true ↔ ran.status = 0) := by
  obtain ⟨hjson,connectionId,hconnection,hresolve⟩ := h
  intro ran
  let output : ExecOutput := ⟨env.stdout,env.stderr,some ran.status⟩
  have hrun : engineSaveConfig results env disk request =
      match ensureSuccess env.lowercase output "docker_engine_config_save_failed" "Docker 配置文件保存失败。" with
      | .error error => (.error error,ran.state)
      | .ok _ => (.ok ⟨true,"Docker 配置已保存。",outputText output⟩,ran.state) := by
    rw [engineSaveConfig]
    simp only [hjson,hconnection,hresolve]
    rfl
  have hstatus := isOk_ensureSuccess env.lowercase output "docker_engine_config_save_failed" "Docker 配置文件保存失败。"
  have hoption : output.exitStatus = some 0 ↔ ran.status = 0 := Option.some_inj
  rw [hrun,← hoption,← hstatus]
  cases ensureSuccess env.lowercase output "docker_engine_config_save_failed" "Docker 配置文件保存失败。" with
  | error error => exact ⟨rfl,iff_of_false Bool.false_ne_true Bool.false_ne_true⟩
  | ok _ => exact ⟨rfl,iff_of_true rfl rfl⟩

/-- The script alone: where it stops early the old file is in place, where it ends the backup has been made. -/
theorem truthful_script (results : Results) (disk : Disk) {ran : Outcome Disk} {encoded : String} {content : Bytes}
    (hcontent : env.decoder encoded = content) (hran : saveScript env.decoder results encoded disk = ran) :
    (ran.status = 0 → ran.state.daemon = some content) ∧ (ran.state.daemon ≠ some content → ∀ text,
      disk.daemon = some text → ran.state.daemon = some text ∨ ran.state.backup = some text) ↔
        Sound results disk.daemon content := by
  subst hran
  by_cases hmktemp : results.mktemp = .done
  · by_cases hbackup : disk.daemon = none ∨ results.backup = .done
    · obtain ⟨hstatus,hdaemon,hold⟩ := saveScript_end env.decoder encoded hmktemp hbackup
      have hstops : ¬ (disk.daemon.isSome = true ∧ results.backup ≠ .done) := by
        rintro ⟨hsome,hfailed⟩
        cases hbackup with
        | inl hnone => simp [hnone] at hsome
        | inr hdone => exact hfailed hdone
      rw [hstatus,hdaemon,hcontent,Option.some_inj,status_eq_zero_iff,copied_copied,Sound]
      simp only [hmktemp,ne_eq,not_true_eq_false,hstops,false_or]
      constructor
      · intro h
        by_cases hremove : results.remove = .done
        · exact .inr (h.1 hremove)
        · exact .inl hremove
      · intro h
        exact ⟨fun hremove => h.resolve_left (not_not.mpr hremove),fun _ text htext => .inr (hold text htext)⟩
    · obtain ⟨text,htext⟩ := Option.ne_none_iff_exists'.mp fun h => hbackup (.inl h)
      have hfailed : results.backup ≠ .done := fun h => hbackup (.inr h)
      obtain ⟨hstatus,hdaemon⟩ := saveScript_backup env.decoder encoded hmktemp htext hfailed
      refine iff_of_true ⟨fun h => ?_,fun _ old hold => ?_⟩ (.inr (.inl ⟨by simp [htext],hfailed⟩))
      · rw [hstatus] at h
        exact absurd h Nat.one_ne_zero
      · rw [hdaemon,← htext]
        exact .inl hold
  · rw [saveScript_mktemp hmktemp]
    exact iff_of_true ⟨fun h => absurd h Nat.one_ne_zero,fun _ text htext => .inl htext⟩ (.inl hmktemp)

/-- Saving tells the truth and keeps a working file exactly where the script does not go on behind a loss. -/
theorem truthful_iff (results : Results) (env : Environment) (disk : Disk) (request : DockerEngineSaveConfigRequest)
    (hdecoder : ∀ data, env.decoder (Base64.encodePadded Base64.standard data) = data) :
    Truthful (engineSaveConfig results env disk request) disk.daemon (Utf8.encode (Text.trim request.content)) ↔
      (env.Accepts request → Sound results disk.daemon (Utf8.encode (Text.trim request.content))) := by
  by_cases haccepts : env.Accepts request
  · obtain ⟨hdisk,hok⟩ := engineSaveConfig_accepted results disk haccepts
    rw [forall_prop_of_true haccepts,← truthful_script results disk (hdecoder _) rfl,← hdisk]
    exact ⟨fun h => ⟨fun hzero => h.told (hok.mpr hzero),h.kept⟩,fun h => ⟨fun htrue => h.1 (hok.mp htrue),h.2⟩⟩
  · obtain ⟨error,hrefused⟩ := engineSaveConfig_refused haccepts
    rw [hrefused]
    refine iff_of_true ⟨fun h => ?_,fun _ text hold => .inl hold⟩ fun h => absurd h haccepts
    cases h

end

/-! Nothing of the new configuration is copied: saving succeeds, and the configuration is empty. -/

/-- The host's `base64 -d`, for what the program gives it. -/
def unpad (encoded : String) : Bytes :=
  (Base64.decode? Base64.standard (String.ofList (encoded.toList.filter (· ≠ '=')))).getD []

def quietHost : Environment where
  parseJson _ := .ok ()
  lowercase text := text
  resolve _ := .ok ()
  decoder := unpad
  stdout := []
  stderr := []

def copyFails : Results := ⟨.done,.done,.done,.done,.failed 0,.done,.done⟩

theorem quietHost_decoder : quietHost.decoder = unpad := rfl

theorem quietHost_decodes (data : Bytes) : quietHost.decoder (Base64.encodePadded Base64.standard data) = data := by
  rw [quietHost_decoder,unpad,Base64.unpadded_encodePadded _ Base64.padding_standard,String.ofList_toList,
    Base64.decode?_encode]
  rfl

def emptyConfig : Disk := ⟨none,some [],none⟩

def saveOne : DockerEngineSaveConfigRequest := ⟨"host","1"⟩

theorem quietHost_truthful :
    Truthful (engineSaveConfig copyFails quietHost emptyConfig saveOne) emptyConfig.daemon
        (Utf8.encode (Text.trim saveOne.content)) ↔
      (quietHost.Accepts saveOne → Sound copyFails emptyConfig.daemon (Utf8.encode (Text.trim saveOne.content))) :=
  truthful_iff copyFails quietHost emptyConfig saveOne quietHost_decodes

theorem copy_empties : ¬ Truthful (engineSaveConfig copyFails quietHost emptyConfig saveOne) emptyConfig.daemon
    (Utf8.encode (Text.trim saveOne.content)) := by
  have hcontent : Utf8.encode (Text.trim saveOne.content) ≠ [] := by decide +kernel
  have hdisk : (engineSaveConfig copyFails quietHost emptyConfig saveOne).2.daemon = some [] := by decide +kernel
  have hok : (engineSaveConfig copyFails quietHost emptyConfig saveOne).1.isOk = true := by decide +kernel
  intro h
  have htold := h.told hok
  rw [hdisk,Option.some_inj] at htold
  exact hcontent htold.symm

end Mxterm.Docker
