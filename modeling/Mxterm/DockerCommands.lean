import Mxterm.CommandOptions
import Mxterm.DockerLogStreams
import Mxterm.ScheduledTaskJobs

/-! The commands of Docker that take the fields of a request (`docker_tools.rs`): their words in the shell, and what
Docker reads in these. -/
namespace Mxterm.Docker

open Text CommandOptions

open ShellWords hiding read

open List

open Execution (except_bind_ok)
open CommandOptions (Grammar Arguments isOption)
open DockerLogStreams (requireValue)
open ScheduledTasks (quotePosixShell)

/-! ## Requests -/

inductive DockerRestartPolicyKind
  | no | always | unlessStopped | onFailure
  deriving DecidableEq

def DockerRestartPolicyKind.asDockerArg : DockerRestartPolicyKind → String
  | .no => "no"
  | .always => "always"
  | .unlessStopped => "unless-stopped"
  | .onFailure => "on-failure"

@[ext] structure DockerImageRunPort where
  hostPort : String
  containerPort : String
  deriving DecidableEq

@[ext] structure DockerImageRunKeyValue where
  key : String
  value : String
  deriving DecidableEq

@[ext] structure DockerImageRunVolume where
  hostPath : String
  containerPath : String
  deriving DecidableEq

@[ext] structure DockerImageRunRequest where
  connectionId : String
  image : String
  name : Option String
  command : Option String
  entrypoint : Option String
  network : Option String
  restartPolicy : Option DockerRestartPolicyKind
  privileged : Bool
  ports : List DockerImageRunPort
  env : List DockerImageRunKeyValue
  volumes : List DockerImageRunVolume
  deriving DecidableEq

@[ext] structure DockerImagePullRequest where
  connectionId : String
  image : String
  deriving DecidableEq

@[ext] structure DockerNetworkConnectRequest where
  connectionId : String
  containerId : String
  networkId : String
  deriving DecidableEq

/-! ## Commands -/

def optionalValue (value : Option String) : Option String := (value.map trim).filter (· ≠ "")

/-- An option and its value, where there is a value. -/
def optionParts (option : String) : Option String → List String
  | some value => [option,quotePosixShell value]
  | none => []

def portParts (port : DockerImageRunPort) : Except AppError (List String) := do
  let hostPort ← requireValue port.hostPort "docker_run_port_invalid" "请输入主机端口。"
  let containerPort ← requireValue port.containerPort "docker_run_port_invalid" "请输入容器端口。"
  return ["-p",quotePosixShell (hostPort ++ ":" ++ containerPort)]

def envParts (item : DockerImageRunKeyValue) : Except AppError (List String) := do
  let key ← requireValue item.key "docker_run_env_invalid" "请输入环境变量名。"
  if '=' ∈ key.toList then throw ⟨"docker_run_env_invalid","环境变量名不能包含等号。",key,true⟩
  else return ["-e",quotePosixShell (key ++ "=" ++ item.value)]

def volumeParts (volume : DockerImageRunVolume) : Except AppError (List String) := do
  let hostPath ← requireValue volume.hostPath "docker_run_volume_invalid" "请输入主机路径。"
  let containerPath ← requireValue volume.containerPath "docker_run_volume_invalid" "请输入容器路径。"
  return ["-v",quotePosixShell (hostPath ++ ":" ++ containerPath)]

def commandParts : Option String → List String
  | some command => ["sh","-lc",quotePosixShell command]
  | none => []

def buildImageRunCommand (request : DockerImageRunRequest) : Except AppError String := do
  let image ← requireValue request.image "docker_image_missing" "请选择镜像。"
  let options := optionParts "--name" (optionalValue request.name) ++
    optionParts "--entrypoint" (optionalValue request.entrypoint) ++
    optionParts "--network" (optionalValue request.network) ++
    optionParts "--restart" (request.restartPolicy.map DockerRestartPolicyKind.asDockerArg) ++
    (if request.privileged then ["--privileged"] else [])
  let ports ← request.ports.mapM portParts
  let env ← request.env.mapM envParts
  let volumes ← request.volumes.mapM volumeParts
  return " ".intercalate (["docker","run","-d"] ++ options ++ ports.flatten ++ env.flatten ++ volumes.flatten ++
    [quotePosixShell image] ++ commandParts (optionalValue request.command))

/-- The command of `image_pull`. -/
def imagePullCommand (request : DockerImagePullRequest) : Except AppError String := do
  let _ ← requireValue request.connectionId "docker_connection_missing" "请选择活动连接。"
  let image ← requireValue request.image "docker_image_missing" "请输入镜像名称。"
  return "docker pull " ++ quotePosixShell image ++ " 2>&1"

/-- The command of `container_connect_network`. -/
def connectNetworkCommand (request : DockerNetworkConnectRequest) : Except AppError String := do
  let containerId ← requireValue request.containerId "docker_container_missing" "请选择容器。"
  let networkId ← requireValue request.networkId "docker_network_missing" "请选择 Docker 网络。"
  return "docker network connect " ++ quotePosixShell networkId ++ " " ++ quotePosixShell containerId

inductive DockerRequest
  | run (request : DockerImageRunRequest)
  | pull (request : DockerImagePullRequest)
  | connect (request : DockerNetworkConnectRequest)
  deriving DecidableEq

def DockerRequest.commandLine : DockerRequest → Except AppError String
  | .run request => buildImageRunCommand request
  | .pull request => imagePullCommand request
  | .connect request => connectNetworkCommand request

/-! ## What Docker reads -/

/-- The options that `docker run` is given here: those with a value, and those without. -/
def valuedOptions : List String := ["--name","--entrypoint","--network","--restart","-p","-e","-v"]

def flagOptions : List String := ["-d","--privileged"]

/-- Docker's options. Of `docker run` it is known that they stand in front of the image, and which of those above take
a value; of the other ones, and of the other commands, nothing is. -/
structure DockerCli where
  run : Grammar
  pull : Grammar
  connect : Grammar
  first : run.interspersed = false
  valued : ∀ option ∈ valuedOptions, run.takesValue option = true
  flags : ∀ option ∈ flagOptions, run.takesValue option = false

/-- What stands between the colons of a port or of a volume. -/
def readParts (spec : String) : List String := (spec.toList.splitOn ':').map String.ofList

/-- The name in front of the first `=`, and the value. -/
def readPair (spec : String) : String × String :=
  (String.ofList (spec.toList.takeWhile (· ≠ '=')),String.ofList (spec.toList.dropWhile (· ≠ '=')).tail)

/-- A container that `docker run` starts. -/
structure DockerRun where
  image : String
  detached : Bool
  names : List String
  entrypoints : List String
  networks : List String
  restarts : List String
  privileged : Bool
  ports : List (List String)
  env : List (String × String)
  volumes : List (List String)
  others : List (String × Option String)
  command : List String
  deriving DecidableEq

/-- The image is the first argument that is no option, and the rest is the command in the container. -/
def toRun (arguments : Arguments) : Option DockerRun :=
  match arguments.operands with
  | [] => none
  | image :: command => some {
      image
      detached := arguments.options.any (·.1 = "-d")
      names := arguments.values "--name"
      entrypoints := arguments.values "--entrypoint"
      networks := arguments.values "--network"
      restarts := arguments.values "--restart"
      privileged := arguments.options.any (·.1 = "--privileged")
      ports := (arguments.values "-p").map readParts
      env := (arguments.values "-e").map readPair
      volumes := (arguments.values "-v").map readParts
      others := arguments.options.filter (·.1 ∉ valuedOptions ++ flagOptions)
      command }

/-- The arguments of a simple command, without assignments in front of it. -/
def argv (command : ShellWords.Command) : Option (List String) :=
  if command.assigned = [] then some (command.argv.map String.ofList) else none

/-- The words behind the name of the command. -/
def behind (names words : List String) : Option (List String) :=
  if words.take names.length = names then some (words.drop names.length) else none

namespace DockerCli
variable (docker : DockerCli)

def readRun (line : String) : Option DockerRun := do
  let words ← (ShellWords.read line.toList).bind argv
  let arguments ← parse docker.run (← behind ["docker","run"] words)
  toRun arguments

/-- Its errors go where its output goes. -/
def readPull (line : String) : Option Arguments := do
  let (command,descriptors) ← readDuplicated line.toList
  if descriptors = ('2','1') then
    parse docker.pull (← behind ["docker","pull"] (← argv command))
  else none

def readConnect (line : String) : Option Arguments := do
  let words ← (ShellWords.read line.toList).bind argv
  parse docker.connect (← behind ["docker","network","connect"] words)

end DockerCli

/-! ## What is asked for -/

/-- The command in the container. -/
def commandArgs : Option String → List String
  | some command => ["sh","-lc",command]
  | none => []

def DockerImageRunRequest.asked (request : DockerImageRunRequest) : DockerRun where
  image := request.image
  detached := true
  names := request.name.toList
  entrypoints := request.entrypoint.toList
  networks := request.network.toList
  restarts := (request.restartPolicy.map DockerRestartPolicyKind.asDockerArg).toList
  privileged := request.privileged
  ports := request.ports.map fun port => [port.hostPort,port.containerPort]
  env := request.env.map fun item => (item.key,item.value)
  volumes := request.volumes.map fun volume => [volume.hostPath,volume.containerPath]
  others := []
  command := commandArgs request.command

/-- The line is a single command, and Docker reads in it what is asked for and nothing else. -/
def DockerRequest.Means (docker : DockerCli) (line : String) : DockerRequest → Prop
  | .run request => docker.readRun line = some request.asked
  | .pull request => docker.readPull line = some ⟨[],[request.image]⟩
  | .connect request => docker.readConnect line = some ⟨[],[request.networkId,request.containerId]⟩

/-- The fields as the program takes them: without blanks around them, and a blank one that may be left out as none. -/
def DockerImageRunRequest.trimmed (request : DockerImageRunRequest) : DockerImageRunRequest :=
  { request with
    image := trim request.image
    name := optionalValue request.name
    command := optionalValue request.command
    entrypoint := optionalValue request.entrypoint
    network := optionalValue request.network
    ports := request.ports.map fun port => ⟨trim port.hostPort,trim port.containerPort⟩
    env := request.env.map fun item => ⟨trim item.key,item.value⟩
    volumes := request.volumes.map fun volume => ⟨trim volume.hostPath,trim volume.containerPath⟩ }

def DockerRequest.trimmed : DockerRequest → DockerRequest
  | .run request => .run request.trimmed
  | .pull request => .pull { request with image := trim request.image }
  | .connect request => .connect { request with
      networkId := trim request.networkId
      containerId := trim request.containerId }

/-- No operand looks like an option, and no part of a port or of a volume has a colon. -/
def DockerRequest.Plain (docker : DockerCli) : DockerRequest → Prop
  | .run request => isOption request.image = false ∧
      (∀ port ∈ request.ports, ':' ∉ port.hostPort.toList ∧ ':' ∉ port.containerPort.toList) ∧
      ∀ volume ∈ request.volumes, ':' ∉ volume.hostPath.toList ∧ ':' ∉ volume.containerPath.toList
  | .pull request => isOption request.image = false
  | .connect request => isOption request.networkId = false ∧
      (docker.connect.interspersed = true → isOption request.containerId = false)

/-! ## The line -/

theorem requireValue_ok {value code message v : String} :
    requireValue value code message = .ok v ↔ v = trim value ∧ trim value ≠ "" := by
  unfold requireValue
  split_ifs with h
  · simp [h]
  · simp [h,eq_comm]

theorem trim_optionalValue {value : Option String} {v : String} (h : optionalValue value = some v) :
    trim v = v := by
  cases value with
  | none => cases h
  | some text =>
    have htrim := (Option.filter_eq_some_iff.mp h).1
    rw [Option.map_some,Option.some_inj] at htrim
    rw [← htrim,trim_trim]

variable {α : Type}

theorem mapM_ok {β ε : Type} {f : α → Except ε β} {g : α → β} {P : α → Prop} {l : List α} {ys : List β}
    (hf : ∀ x y, f x = .ok y → y = g x ∧ P x) (h : l.mapM f = .ok ys) : ys = l.map g ∧ ∀ x ∈ l, P x := by
  induction l generalizing ys with
  | nil =>
    cases h
    simp
  | cons x l ih =>
    rw [mapM_cons,except_bind_ok] at h
    obtain ⟨y,hy,h⟩ := h
    rw [except_bind_ok] at h
    obtain ⟨rest,hrest,h⟩ := h
    cases h
    obtain ⟨rfl,hx⟩ := hf x y hy
    obtain ⟨rfl,hl⟩ := ih hrest
    exact ⟨rfl,forall_mem_cons.mpr ⟨hx,hl⟩⟩

theorem portParts_ok (port : DockerImageRunPort) (parts : List String) (h : portParts port = .ok parts) :
    parts = ["-p",quotePosixShell (trim port.hostPort ++ ":" ++ trim port.containerPort)] ∧ True := by
  simp only [portParts,except_bind_ok,requireValue_ok] at h
  obtain ⟨_,⟨rfl,-⟩,_,⟨rfl,-⟩,h⟩ := h
  cases h
  exact ⟨rfl,trivial⟩

theorem volumeParts_ok (volume : DockerImageRunVolume) (parts : List String) (h : volumeParts volume = .ok parts) :
    parts = ["-v",quotePosixShell (trim volume.hostPath ++ ":" ++ trim volume.containerPath)] ∧ True := by
  simp only [volumeParts,except_bind_ok,requireValue_ok] at h
  obtain ⟨_,⟨rfl,-⟩,_,⟨rfl,-⟩,h⟩ := h
  cases h
  exact ⟨rfl,trivial⟩

theorem envParts_ok (item : DockerImageRunKeyValue) (parts : List String) (h : envParts item = .ok parts) :
    parts = ["-e",quotePosixShell (trim item.key ++ "=" ++ item.value)] ∧ '=' ∉ (trim item.key).toList := by
  simp only [envParts,except_bind_ok,requireValue_ok] at h
  obtain ⟨_,⟨rfl,-⟩,h⟩ := h
  split_ifs at h with hkey
  cases h
  exact ⟨rfl,hkey⟩

/-- An option with its value, where there is a value. -/
def valued (option : String) (value : Option String) : List (String × Option String) :=
  value.toList.map fun value => (option,some value)

def flagged (option : String) (given : Bool) : List (String × Option String) := if given then [(option,none)] else []

/-- The options that are asked for. -/
def DockerImageRunRequest.options (request : DockerImageRunRequest) : List (String × Option String) :=
  [("-d",none)] ++ valued "--name" request.name ++ valued "--entrypoint" request.entrypoint ++
    valued "--network" request.network ++
    valued "--restart" (request.restartPolicy.map DockerRestartPolicyKind.asDockerArg) ++
    flagged "--privileged" request.privileged ++
    (request.ports.map fun port => ("-p",some (port.hostPort ++ ":" ++ port.containerPort))) ++
    (request.env.map fun item => ("-e",some (item.key ++ "=" ++ item.value))) ++
    request.volumes.map fun volume => ("-v",some (volume.hostPath ++ ":" ++ volume.containerPath))

/-- Options as they stand in the line. -/
def spell (options : List (String × Option String)) : List String :=
  options.flatMap fun option => option.1 :: option.2.toList.map quotePosixShell

@[simp] theorem spell_append (a b : List (String × Option String)) : spell (a ++ b) = spell a ++ spell b :=
  flatMap_append

@[simp] theorem spell_valued (option : String) (value : Option String) :
    spell (valued option value) = optionParts option value := by
  cases value <;> rfl

@[simp] theorem spell_flagged (option : String) (given : Bool) :
    spell (flagged option given) = if given then [option] else [] := by
  cases given <;> rfl

theorem spell_map (option : String) (spec : α → String) (l : List α) :
    spell (l.map fun x => (option,some (spec x))) = (l.map fun x => [option,quotePosixShell (spec x)]).flatten := by
  induction l with
  | nil => rfl
  | cons x l ih => simpa [spell] using ih

variable {line : String}

theorem buildImageRunCommand_ok {request : DockerImageRunRequest} (h : buildImageRunCommand request = .ok line) :
    line = " ".intercalate ("docker" :: "run" :: (spell request.trimmed.options ++
      quotePosixShell request.trimmed.image :: commandParts request.trimmed.command)) ∧
      ∀ item ∈ request.trimmed.env, '=' ∉ item.key.toList := by
  simp only [buildImageRunCommand,except_bind_ok,requireValue_ok] at h
  obtain ⟨_,⟨rfl,-⟩,ports,hports,env,henv,volumes,hvolumes,h⟩ := h
  obtain ⟨rfl,-⟩ := mapM_ok portParts_ok hports
  obtain ⟨rfl,hkeys⟩ := mapM_ok envParts_ok henv
  obtain ⟨rfl,-⟩ := mapM_ok volumeParts_ok hvolumes
  cases h
  constructor
  · have hdetached : spell [("-d",none)] = ["-d"] := rfl
    simp only [DockerImageRunRequest.trimmed,DockerImageRunRequest.options,spell_append,spell_valued,spell_flagged,
      hdetached,map_map,Function.comp_def,spell_map]
    simp only [append_assoc,cons_append,nil_append]
  · intro item hitem
    obtain ⟨given,hgiven,rfl⟩ := mem_map.mp hitem
    exact hkeys given hgiven

/-! ## Its words -/

/-- A part of the line that stands for an argument. -/
def Spelled (part argument : String) : Prop :=
  ∃ word, ShellWords.IsWord part.toList word ∧ value word = argument.toList

theorem spelled_quote (value : String) : Spelled (quotePosixShell value) value := by
  refine ⟨quoted value.toList,?_,value_quoted _⟩
  rw [ScheduledTasks.toList_quotePosixShell]
  exact isWord_single value.toList

/-- A text that can be a name of a command or of an option. -/
def isBare (text : String) : Bool := text.toList.all isOrdinary && ! text.toList.isEmpty

theorem isWord_bare {text : String} (h : isBare text = true) :
    ShellWords.IsWord text.toList (unquoted text.toList) := by
  simp only [isBare,Bool.and_eq_true,Bool.not_eq_true',isEmpty_eq_false_iff] at h
  exact isWord_ordinary h.1 h.2

theorem spelled_bare {text : String} (h : isBare text = true) : Spelled text text :=
  ⟨unquoted text.toList,isWord_bare h,value_unquoted _⟩

theorem spelled_spell {options : List (String × Option String)} (h : ∀ option ∈ options, isBare option.1 = true) :
    List.Forall₂ Spelled (spell options) (write options) := by
  induction options with
  | nil => exact .nil
  | cons option options ih =>
    obtain ⟨hoption,hoptions⟩ := forall_mem_cons.mp h
    obtain ⟨name,value⟩ := option
    have hname := spelled_bare hoption
    cases value with
    | none => exact .cons hname (ih hoptions)
    | some value => exact .cons hname (.cons (spelled_quote value) (ih hoptions))

theorem bare_docker : isBare "docker" = true ∧
    assignment? (unquoted "docker".toList) = none := by decide

/-- The words of a line of parts, behind the name of the command. -/
theorem read_parts {name : String} {parts args : List String}
    (hname : isBare name = true ∧ assignment? (unquoted name.toList) = none)
    (h : List.Forall₂ Spelled parts args) :
    (ShellWords.read (" ".intercalate (name :: parts)).toList).bind argv = some (name :: args) := by
  have hwords : ∃ words, List.Forall₂ ShellWords.IsWord (parts.map String.toList) words ∧
      words.map value = args.map String.toList := by
    induction h with
    | nil => exact ⟨[],.nil,rfl⟩
    | cons hpart hparts ih =>
      obtain ⟨word,hword,hvalue⟩ := hpart
      obtain ⟨words,hwords,hvalues⟩ := ih
      exact ⟨word :: words,.cons hword hwords,by simp [hvalue,hvalues]⟩
  obtain ⟨words,hwords,hvalues⟩ := hwords
  have hsplit : split (" ".intercalate (name :: parts)).toList =
      some (unquoted name.toList :: words) := by
    rw [String.toList_intercalate]
    exact split_words (.cons (isWord_bare hname.1) hwords)
  have hargs : (args.map String.toList).map String.ofList = args := by simp [Function.comp_def]
  rw [ShellWords.read,hsplit,Option.map_some,Option.bind_some,toCommand,hname.2]
  simp only [argv,map_cons,hvalues,value_unquoted,hargs,String.ofList_toList,if_true]

/-! ## What is read in them -/

theorem spelled_commandParts (command : Option String) :
    List.Forall₂ Spelled (commandParts command) (commandArgs command) := by
  cases command with
  | none => exact .nil
  | some command =>
    exact .cons (spelled_bare (by decide)) (.cons (spelled_bare (by decide)) (.cons (spelled_quote command) .nil))

variable {option : String}

theorem known_valued (h : option ∈ valuedOptions) (value : Option String) :
    ∀ given ∈ valued option value, (given.1 ∈ valuedOptions ∧ given.2.isSome = true) ∨
      (given.1 ∈ flagOptions ∧ given.2 = none) := by
  intro given hgiven
  obtain ⟨text,-,rfl⟩ := mem_map.mp hgiven
  exact .inl ⟨h,rfl⟩

theorem known_map (h : option ∈ valuedOptions) (spec : α → String) (l : List α) :
    ∀ given ∈ l.map fun x => (option,some (spec x)), (given.1 ∈ valuedOptions ∧ given.2.isSome = true) ∨
      (given.1 ∈ flagOptions ∧ given.2 = none) := by
  intro given hgiven
  obtain ⟨x,-,rfl⟩ := mem_map.mp hgiven
  exact .inl ⟨h,rfl⟩

variable {docker : DockerCli}

theorem known_options (request : DockerImageRunRequest) : ∀ given ∈ request.options,
    (given.1 ∈ valuedOptions ∧ given.2.isSome = true) ∨ (given.1 ∈ flagOptions ∧ given.2 = none) := by
  have hflags : ∀ given ∈ flagged "--privileged" request.privileged,
      (given.1 ∈ valuedOptions ∧ given.2.isSome = true) ∨ (given.1 ∈ flagOptions ∧ given.2 = none) := by
    cases request.privileged <;> simp [flagged,flagOptions]
  have hdetached : ∀ given ∈ [("-d",(none : Option String))],
      (given.1 ∈ valuedOptions ∧ given.2.isSome = true) ∨ (given.1 ∈ flagOptions ∧ given.2 = none) := by
    simp [flagOptions]
  simp only [DockerImageRunRequest.options,forall_mem_append]
  exact ⟨⟨⟨⟨⟨⟨⟨⟨hdetached,known_valued (by decide) _⟩,known_valued (by decide) _⟩,known_valued (by decide) _⟩,
    known_valued (by decide) _⟩,hflags⟩,known_map (by decide) _ _⟩,known_map (by decide) _ _⟩,
    known_map (by decide) _ _⟩

theorem bare_known (h : option ∈ valuedOptions ++ flagOptions) : isBare option = true ∧ isOption option = true := by
  have hall : (valuedOptions ++ flagOptions).all (fun option => isBare option && isOption option) = true := by decide
  simpa using all_eq_true.mp hall option h

theorem bare_options (request : DockerImageRunRequest) : ∀ given ∈ request.options, isBare given.1 = true := by
  intro given hgiven
  have hknown := (known_options request given hgiven).imp And.left And.left
  exact (bare_known (mem_append.mpr hknown)).1

theorem written_options (docker : DockerCli) (request : DockerImageRunRequest) :
    ∀ given ∈ request.options, CommandOptions.Written docker.run given := by
  intro given hgiven
  have hknown := (known_options request given hgiven).imp And.left And.left
  refine ⟨(bare_known (mem_append.mpr hknown)).2,?_⟩
  cases known_options request given hgiven with
  | inl h => rw [docker.valued _ h.1,h.2]
  | inr h => rw [docker.flags _ h.1,h.2]; rfl

/-- The line as Docker reads it: the options that are asked for, and what it finds from the image on. -/
theorem readRun_line {request : DockerImageRunRequest}
    (h : line = " ".intercalate ("docker" :: "run" :: (spell request.options ++ quotePosixShell request.image ::
      commandParts request.command))) :
    docker.readRun line = ((parse docker.run (request.image :: commandArgs request.command)).map
      (.withOptions request.options)).bind toRun := by
  have hparts : List.Forall₂ Spelled ("run" :: (spell request.options ++
      quotePosixShell request.image :: commandParts request.command))
      ("run" :: (write request.options ++ request.image :: commandArgs request.command)) :=
    .cons (spelled_bare (by decide)) (rel_append (spelled_spell (bare_options request))
      (.cons (spelled_quote request.image) (spelled_commandParts request.command)))
  have hread := read_parts bare_docker hparts
  rw [← h] at hread
  rw [DockerCli.readRun,hread]
  simp only [Option.bind_eq_bind,Option.bind_some,behind]
  simp only [length_cons,length_nil,take_succ_cons,take_zero,if_true,drop_succ_cons,
    drop_zero,Option.bind_some,parse_write (written_options docker request)]

theorem splitOn_eq_singleton_iff {a : Char} {l x : List Char} : l.splitOn a = [x] ↔ l = x ∧ a ∉ l := by
  constructor
  · intro h
    have hjoin : [a].intercalate (l.splitOn a) = l := intercalate_splitOn a
    rw [h,intercalate_singleton] at hjoin
    refine ⟨hjoin.symm,fun hmem => ?_⟩
    obtain ⟨u,v,rfl⟩ := append_of_mem hmem
    rw [splitOn_append_cons_self] at h
    have hlength := congrArg List.length h
    have hu := length_pos_iff.mpr (splitOn_ne_nil a u)
    have hv := length_pos_iff.mpr (splitOn_ne_nil a v)
    simp only [length_append,length_singleton] at hlength
    omega
  · rintro ⟨rfl,h⟩
    exact splitOn_eq_singleton h

theorem append_eq_pair_iff {a b : List α} {x y : α} (ha : a ≠ []) (hb : b ≠ []) :
    a ++ b = [x,y] ↔ a = [x] ∧ b = [y] := by
  constructor
  · intro h
    cases a with
    | nil => exact absurd rfl ha
    | cons c a =>
      rw [cons_append,List.cons.injEq] at h
      cases a with
      | nil => exact ⟨by rw [h.1],h.2⟩
      | cons d a => simp_all
  · rintro ⟨rfl,rfl⟩
    rfl

/-- The two parts are read where neither has a colon of its own. -/
theorem readParts_iff (a b x y : String) : readParts (a ++ ":" ++ b) = [x,y] ↔
    (a = x ∧ b = y) ∧ ':' ∉ a.toList ∧ ':' ∉ b.toList := by
  have hchars : (a ++ ":" ++ b).toList = a.toList ++ ':' :: b.toList := by simp
  rw [readParts,hchars,splitOn_append_cons_self,map_append]
  have hone (s t : String) : (s.toList.splitOn ':').map String.ofList = [t] ↔ s = t ∧ ':' ∉ s.toList := by
    simp only [map_eq_singleton_iff,splitOn_eq_singleton_iff]
    constructor
    · rintro ⟨chars,⟨rfl,h⟩,ht⟩
      exact ⟨by rw [← ht,String.ofList_toList],h⟩
    · rintro ⟨rfl,h⟩
      exact ⟨s.toList,⟨rfl,h⟩,String.ofList_toList⟩
  have hne (s : String) : (s.toList.splitOn ':').map String.ofList ≠ [] := by
    simp [splitOn_ne_nil]
  rw [append_eq_pair_iff (hne a) (hne b),hone,hone]
  tauto

theorem readPair_of {key : String} (h : '=' ∉ key.toList) (value : String) :
    readPair (key ++ "=" ++ value) = (key,value) := by
  have hchars : (key ++ "=" ++ value).toList = key.toList ++ '=' :: value.toList := by simp
  have hkey : ∀ c ∈ key.toList, decide (c ≠ '=') = true := by
    intro c hc
    rw [decide_eq_true_eq]
    rintro rfl
    exact h hc
  rw [readPair,hchars,takeWhile_append_of_pos hkey,dropWhile_append_of_pos hkey]
  simp

/-- What Docker reads where the image is no option. -/
def DockerImageRunRequest.read (request : DockerImageRunRequest) : DockerRun :=
  { request.asked with
    ports := request.ports.map fun port => readParts (port.hostPort ++ ":" ++ port.containerPort)
    env := request.env.map fun item => readPair (item.key ++ "=" ++ item.value)
    volumes := request.volumes.map fun volume => readParts (volume.hostPath ++ ":" ++ volume.containerPath) }

theorem toRun_options (request : DockerImageRunRequest) :
    toRun ⟨request.options,request.image :: commandArgs request.command⟩ = some request.read := by
  have hothers : request.options.filter (·.1 ∉ valuedOptions ++ flagOptions) = [] := by
    simp only [filter_eq_nil_iff,decide_eq_true_eq,not_not]
    intro given hgiven
    exact mem_append.mpr ((known_options request given hgiven).imp And.left And.left)
  simp only [toRun,hothers]
  cases hprivileged : request.privileged <;>
  simp [DockerImageRunRequest.read,DockerImageRunRequest.asked,DockerImageRunRequest.options,valued,flagged,
    Arguments.values,filterMap_append,filterMap_map,Function.comp_def,hprivileged]

theorem map_eq_map_iff {γ : Type} {f g : α → γ} {P : α → Prop} (h : ∀ x y, f x = g y ↔ x = y ∧ P x) {l m : List α} :
    l.map f = m.map g ↔ l = m ∧ ∀ x ∈ l, P x := by
  induction l generalizing m with
  | nil => simp [eq_comm]
  | cons x l ih =>
    cases m with
    | nil => simp
    | cons y m =>
      simp only [map_cons,List.cons.injEq,h,ih,forall_mem_cons]
      tauto

section
variable {request other : DockerImageRunRequest} {line : String}

theorem asDockerArg_injective : Function.Injective DockerRestartPolicyKind.asDockerArg := by
  intro a b h
  cases a <;> cases b <;> first | rfl | exact absurd h (by decide)

theorem commandArgs_injective : Function.Injective commandArgs := by
  intro a b h
  cases a <;> cases b <;> simp_all [commandArgs]

/-- What is read is what another request asks for exactly where the two are the same, without colons in their parts. -/
theorem read_eq_asked_iff (hconnection : request.connectionId = other.connectionId)
    (hkeys : ∀ item ∈ request.env, '=' ∉ item.key.toList) : request.read = other.asked ↔ request = other ∧
      (∀ port ∈ request.ports, ':' ∉ port.hostPort.toList ∧ ':' ∉ port.containerPort.toList) ∧
      ∀ volume ∈ request.volumes, ':' ∉ volume.hostPath.toList ∧ ':' ∉ volume.containerPath.toList := by
  have hports (a b : DockerImageRunPort) : readParts (a.hostPort ++ ":" ++ a.containerPort) =
      [b.hostPort,b.containerPort] ↔ a = b ∧ ':' ∉ a.hostPort.toList ∧ ':' ∉ a.containerPort.toList := by
    rw [readParts_iff,DockerImageRunPort.ext_iff]
  have hvolumes (a b : DockerImageRunVolume) : readParts (a.hostPath ++ ":" ++ a.containerPath) =
      [b.hostPath,b.containerPath] ↔ a = b ∧ ':' ∉ a.hostPath.toList ∧ ':' ∉ a.containerPath.toList := by
    rw [readParts_iff,DockerImageRunVolume.ext_iff]
  have henv : (request.env.map fun item => readPair (item.key ++ "=" ++ item.value)) =
      request.env.map fun item => (item.key,item.value) :=
    map_congr_left fun item hitem => readPair_of (hkeys item hitem) item.value
  have hpairs (a b : DockerImageRunKeyValue) : (a.key,a.value) = (b.key,b.value) ↔ a = b ∧ True := by
    rw [Prod.mk.injEq,DockerImageRunKeyValue.ext_iff,and_true]
  have hoption (a b : Option String) : a.toList = b.toList ↔ a = b := by cases a <;> cases b <;> simp
  have hrestart (a b : Option DockerRestartPolicyKind) :
      a.map DockerRestartPolicyKind.asDockerArg = b.map DockerRestartPolicyKind.asDockerArg ↔ a = b :=
    (Option.map_injective asDockerArg_injective).eq_iff
  rw [DockerImageRunRequest.ext_iff]
  simp only [DockerImageRunRequest.read,DockerImageRunRequest.asked,DockerRun.mk.injEq,henv,map_eq_map_iff hports,
    map_eq_map_iff hpairs,map_eq_map_iff hvolumes,hoption,hrestart,commandArgs_injective.eq_iff,hconnection,
    implies_true,and_true]
  tauto

theorem trim_argument (request : DockerImageRunRequest) :
    ∀ argument ∈ request.trimmed.image :: commandArgs request.trimmed.command, trim argument = argument := by
  have hwords : ∀ argument ∈ ["sh","-lc"], trim argument = argument := by
    simp only [forall_mem_cons]
    exact ⟨by decide,by decide,by simp⟩
  rw [forall_mem_cons]
  refine ⟨trim_trim _,fun argument hargument => ?_⟩
  cases hcommand : request.trimmed.command with
  | none => simp [hcommand,commandArgs] at hargument
  | some command =>
    have hmem : argument ∈ ["sh","-lc"] ++ [command] := by simpa [hcommand,commandArgs] using hargument
    cases mem_append.mp hmem with
    | inl h => exact hwords argument h
    | inr h =>
      rw [mem_singleton.mp h]
      exact trim_optionalValue hcommand

theorem head?_of_toRun {arguments : Arguments} {run : DockerRun} (h : toRun arguments = some run) :
    arguments.operands.head? = some run.image := by
  rw [toRun] at h
  split at h
  · cases h
  · rename_i image command hoperands
    rw [hoperands,← Option.some.inj h]
    rfl

/-- What is read in the command of a container, compared with what a request asks for. -/
theorem readRun_iff (h : buildImageRunCommand request = .ok line)
    (himage : trim other.image = request.trimmed.image) (hconnection : request.connectionId = other.connectionId) :
    docker.readRun line = some other.asked ↔
      request.trimmed = other ∧ (DockerRequest.run request.trimmed).Plain docker := by
  obtain ⟨hline,hkeys⟩ := buildImageRunCommand_ok h
  rw [readRun_line hline]
  by_cases hoption : isOption request.trimmed.image = true
  · refine iff_of_false (fun hread => ?_) fun hplain => by simp [hplain.2.1] at hoption
    obtain ⟨arguments,harguments,hrun⟩ := Option.bind_eq_some_iff.mp hread
    obtain ⟨parsed,hparsed,rfl⟩ := Option.map_eq_some_iff.mp harguments
    have hhead : parsed.operands.head? = some other.image := head?_of_toRun hrun
    have hmem := mem_of_mem_operands hparsed _ (mem_of_head? hhead)
    have hother : trim other.image = other.image := trim_argument request _ hmem
    have hplain := not_isOption_of_parse hparsed _ hhead
    rw [← hother,himage,hoption] at hplain
    cases hplain
  · have hplain := Bool.eq_false_iff.mpr hoption
    have hrequest : request.trimmed.connectionId = other.connectionId := hconnection
    rw [parse_operands docker.first hplain,Option.map_some,Option.bind_some]
    have hoptions : Arguments.withOptions request.trimmed.options
        ⟨[],request.trimmed.image :: commandArgs request.trimmed.command⟩ =
        ⟨request.trimmed.options,request.trimmed.image :: commandArgs request.trimmed.command⟩ := by
      simp [Arguments.withOptions]
    rw [hoptions,toRun_options,Option.some_inj,read_eq_asked_iff hrequest hkeys]
    simp [DockerRequest.Plain,hplain]

end

/-- What is read in the command of a pull. -/
theorem readPull_line {request : DockerImagePullRequest} (h : imagePullCommand request = .ok line) :
    docker.readPull line = parse docker.pull [trim request.image] := by
  simp only [imagePullCommand,except_bind_ok,requireValue_ok] at h
  obtain ⟨_,-,_,⟨rfl,-⟩,h⟩ := h
  cases h
  have hchars : ("docker pull " ++ quotePosixShell (trim request.image) ++ " 2>&1").toList =
      (" ".intercalate ["docker","pull",quotePosixShell (trim request.image)]).toList ++
        [' ','2','>','&','1'] := by
    simp
  have hread := read_parts bare_docker
    (.cons (spelled_bare (by decide : isBare "pull" = true)) (.cons (spelled_quote (trim request.image)) .nil))
  obtain ⟨command,hcommand,hargv⟩ := Option.bind_eq_some_iff.mp hread
  rw [DockerCli.readPull,hchars,readDuplicated_append _ (by decide) (by decide),hcommand]
  simp only [Option.map_some,Option.bind_eq_bind,Option.bind_some,hargv,if_true]
  rfl

theorem readConnect_line {request : DockerNetworkConnectRequest} (h : connectNetworkCommand request = .ok line) :
    docker.readConnect line =
      parse docker.connect [trim request.networkId,trim request.containerId] := by
  simp only [connectNetworkCommand,except_bind_ok,requireValue_ok] at h
  obtain ⟨_,⟨rfl,-⟩,_,⟨rfl,-⟩,h⟩ := h
  cases h
  have hline : "docker network connect " ++ quotePosixShell (trim request.networkId) ++ " " ++
      quotePosixShell (trim request.containerId) = " ".intercalate ["docker","network","connect",
        quotePosixShell (trim request.networkId),quotePosixShell (trim request.containerId)] := by
    apply String.toList_injective
    simp
  have hread := read_parts bare_docker (.cons (spelled_bare (by decide : isBare "network" = true))
    (.cons (spelled_bare (by decide : isBare "connect" = true)) (.cons (spelled_quote (trim request.networkId))
      (.cons (spelled_quote (trim request.containerId)) .nil))))
  rw [DockerCli.readConnect,hline,hread]
  rfl

/-- A command means what is asked for exactly where Docker does not read more in its fields. -/
theorem means_iff (docker : DockerCli) (request : DockerRequest) (line : String)
    (h : request.commandLine = .ok line) :
    (request.trimmed.Means docker line ↔ request.trimmed.Plain docker) ∧
      (request.Means docker line ↔ request.trimmed = request ∧ request.Plain docker) := by
  cases request with
  | run request =>
    have htrimmed : docker.readRun line = some request.trimmed.asked ↔
        request.trimmed = request.trimmed ∧ (DockerRequest.run request.trimmed).Plain docker :=
      readRun_iff h (trim_trim _) rfl
    have hgiven : docker.readRun line = some request.asked ↔
        request.trimmed = request ∧ (DockerRequest.run request.trimmed).Plain docker := readRun_iff h rfl rfl
    constructor
    · exact htrimmed.trans (and_iff_right rfl)
    · refine hgiven.trans ?_
      simp only [DockerRequest.trimmed,DockerRequest.run.injEq]
      exact and_congr_right fun hsame => by rw [hsame]
  | pull request =>
    have hread (image : String) : docker.readPull line = some ⟨[],[image]⟩ ↔
        trim request.image = image ∧ isOption (trim request.image) = false := by
      rw [readPull_line h,parse_one_iff]
    constructor
    · exact (hread _).trans (and_iff_right rfl)
    · refine (hread request.image).trans ?_
      simp only [DockerRequest.trimmed,DockerRequest.pull.injEq,DockerImagePullRequest.ext_iff,true_and]
      exact and_congr_right fun hsame => by rw [hsame]; rfl
  | connect request =>
    have hread (networkId containerId : String) : docker.readConnect line = some ⟨[],[networkId,containerId]⟩ ↔
        (trim request.networkId = networkId ∧ trim request.containerId = containerId) ∧
          isOption (trim request.networkId) = false ∧
            (docker.connect.interspersed = true → isOption (trim request.containerId) = false) := by
      rw [readConnect_line h,parse_two_iff]
    constructor
    · exact (hread _ _).trans (and_iff_right ⟨rfl,rfl⟩)
    · refine (hread request.networkId request.containerId).trans ?_
      simp only [DockerRequest.trimmed,DockerRequest.connect.injEq,DockerNetworkConnectRequest.ext_iff,true_and]
      rw [and_comm (a := trim request.containerId = request.containerId)]
      exact and_congr_right fun hsame => by rw [hsame.1,hsame.2]; rfl

/-! A leading dash: the image is an option, and the shell for the command is the image. -/

def plainCli : DockerCli where
  run := ⟨fun option => option ∈ valuedOptions,false⟩
  pull := ⟨fun _ => false,true⟩
  connect := ⟨fun _ => false,true⟩
  first := rfl
  valued := by decide
  flags := by decide

def privilegedImage : DockerImageRunRequest where
  connectionId := "host"
  image := "--privileged"
  name := none
  command := some "id"
  entrypoint := none
  network := none
  restartPolicy := none
  privileged := false
  ports := []
  env := []
  volumes := []

theorem privileged_reads : buildImageRunCommand privilegedImage = .ok "docker run -d '--privileged' sh -lc 'id'" ∧
    (plainCli.readRun "docker run -d '--privileged' sh -lc 'id'").map (fun run => (run.image,run.privileged)) =
      some ("sh",true) ∧
    ¬ (DockerRequest.run privilegedImage).Means plainCli "docker run -d '--privileged' sh -lc 'id'" := by
  have hread : (plainCli.readRun "docker run -d '--privileged' sh -lc 'id'").map
      (fun run => (run.image,run.privileged)) = some ("sh",true) := by decide +kernel
  refine ⟨by decide +kernel,hread,fun hmeans => ?_⟩
  have hasked : plainCli.readRun "docker run -d '--privileged' sh -lc 'id'" = some privilegedImage.asked := hmeans
  rw [hasked] at hread
  exact absurd hread (by decide)

theorem pull_means : ((DockerRequest.pull ⟨"host","nginx"⟩).trimmed.Means plainCli "docker pull 'nginx' 2>&1" ↔
    (DockerRequest.pull ⟨"host","nginx"⟩).trimmed.Plain plainCli) ∧
    ((DockerRequest.pull ⟨"host","nginx"⟩).Means plainCli "docker pull 'nginx' 2>&1" ↔
      (DockerRequest.pull ⟨"host","nginx"⟩).trimmed = .pull ⟨"host","nginx"⟩ ∧
        (DockerRequest.pull ⟨"host","nginx"⟩).Plain plainCli) :=
  means_iff plainCli (.pull ⟨"host","nginx"⟩) "docker pull 'nginx' 2>&1" (by decide +kernel)

end Mxterm.Docker
