import Mxterm.ScheduledTasks
import Mxterm.ShellScripts

/-! What the wrapper of a scheduled task does when the shell carries it out (`build_run_command` in
`scheduled_tasks.rs`). -/
namespace Mxterm.ScheduledTasks

open ShellScripts

/-! ## The wrapper as a script -/

def plain (text : String) : Word := .text false text.toList .done

def quoted (text : String) : Word := .text true text.toList .done

/-- A parameter between double quotes. -/
def param (name : String) : Word := .param true name.toList (quoted "")

def command (words : List Word) : Script := .simple (words.foldr Elements.word .done)

def set (name : String) (value : Word) : Script := .simple (.assign name.toList value .done)

def utcDate : Script :=
  .simple (.word (plain "date") (.word (plain "-u") (.word (plain "+%Y-%m-%dT%H:%M:%SZ")
    (.redirect ['2','>'] (plain "/dev/null") .done))))

/-- The time as a text: `date -u …` or, where that fails, `date`. -/
def now : Word := .output true (.or utcDate (command [plain "date"])) (quoted "")

def setLogDir : Script :=
  set "mxterm_log_dir" (.param true "HOME".toList (quoted "/.mxterm/scheduled-tasks/logs"))

def makeLogDir : Script := command [plain "mkdir",plain "-p",param "mxterm_log_dir"]

def setLogFile : Script :=
  set "mxterm_log_file" (.param true "mxterm_log_dir".toList (.text true ['/']
    (.param true "MXTERM_TASK_ID".toList (quoted ".log"))))

def printStart : Script := command [plain "printf",quoted "__MXTERM_TASK_START__ %s\\n",now]

/-- What prints nothing and asks whether `base64 -d` decodes it. -/
def tryDecoder : Script :=
  .pipe (command [plain "printf",quoted ""]) (.simple (.word (plain "base64") (.word (plain "-d")
    (.redirect ['>'] (plain "/dev/null") (.redirect ['2','>','&'] (plain "1") .done)))))

def probe : Script := .or tryDecoder (set "mxterm_decode" (quoted "base64 -D"))

def decode : Script :=
  set "mxterm_cmd" (.output true (.pipe (command [plain "printf",plain "%s",param "MXTERM_CMD_B64"])
    (command [.param false "mxterm_decode".toList .done])) (quoted ""))

def checkDecoded : Script :=
  .cond (.seq (.not decode) .done)
    (.seq (command [plain "echo",quoted "mxterm: command decode failed"])
      (.seq (command [plain "exit",plain "127"]) .done))

def runIt : Script := command [plain "/bin/sh",plain "-lc",param "mxterm_cmd"]

def keepStatus : Script := set "mxterm_rc" (.param false ['?'] .done)

def printEnd : Script :=
  command [plain "printf",quoted "__MXTERM_TASK_END__ %s exit=%s\\n",now,param "mxterm_rc"]

def leave : Script := command [plain "exit",param "mxterm_rc"]

def logged : Script :=
  .seq printStart (.seq (set "mxterm_decode" (quoted "base64 -d")) (.seq probe (.seq checkDecoded (.seq runIt
    (.seq keepStatus (.seq printEnd (.seq leave .done)))))))

def redirections : Elements :=
  .redirect ['>','>'] (param "mxterm_log_file") (.redirect ['2','>','&'] (plain "1") .done)

def wrapper : Script := .seq setLogDir (.seq makeLogDir (.seq setLogFile (.group logged redirections)))

/-! ## What the wrapper does -/

/-- What the utilities of a host do, as far as the wrapper relies on it: `base64 -d` inverts the encoding. -/
structure Utilities (host : Host) : Prop where
  printfText : ∀ runs value input, (host.utility runs [bytes "printf".toList,bytes "%s".toList,value] input).1 = value
  printfNothing : ∀ runs input, (host.utility runs [bytes "printf".toList,[]] input).1 = []
  decodes : ∀ runs data, host.utility runs [bytes "base64".toList,bytes "-d".toList]
    (Utf8.encode (Base64.encodePadded Base64.standard data)) = (data,0)

/-- The parameters that the wrapper passes the command through, and the shell that is to run it. -/
def watch : Watch :=
  ⟨["MXTERM_CMD_B64".toList,"mxterm_decode".toList,"mxterm_cmd".toList],"/bin/sh".toList⟩

/-- The call of the shell with a command. -/
def shellCall (command : Bytes) : List Bytes := [bytes "/bin/sh".toList,bytes "-lc".toList,command]

/-- Before the command has been decoded. -/
structure Encoded (command : Bytes) (s : State) : Prop where
  encoded : s.vars "MXTERM_CMD_B64".toList = Utf8.encode (Base64.encodePadded Base64.standard command)
  calls : watch.calls s.runs = []
  goes : s.exited = false

/-- The decoder is `base64 -d`. -/
structure Chosen (command : Bytes) (s : State) : Prop extends Encoded command s where
  decoder : s.vars "mxterm_decode".toList = bytes "base64 -d".toList

structure Decoded (command : Bytes) (s : State) : Prop where
  command : s.vars "mxterm_cmd".toList = command
  calls : watch.calls s.runs = []
  goes : s.exited = false

structure HasRun (command : Bytes) (s : State) : Prop where
  calls : watch.calls s.runs = [shellCall command]
  goes : s.exited = false

section
variable {host : Host} {name : String} {value : Word} {text data : Bytes} {s s' : State} {input : Bytes}

/-- The parts of the wrapper that neither pass the command on nor run it. -/
theorem quiet_parts : setLogDir.isQuiet watch = true ∧ makeLogDir.isQuiet watch = true ∧
    setLogFile.isQuiet watch = true ∧ redirections.isQuiet watch = true ∧ printStart.isQuiet watch = true ∧
    tryDecoder.isQuiet watch = true ∧ keepStatus.isQuiet watch = true ∧ printEnd.isQuiet watch = true := by
  decide +kernel

theorem Encoded.of_undisturbed (h : Undisturbed watch s s') (hs : Encoded data s) : Encoded data s' where
  encoded := (h.vars _ (by simp [watch])).trans hs.encoded
  calls := h.calls.trans hs.calls
  goes := h.exited.trans hs.goes

theorem Chosen.of_undisturbed (h : Undisturbed watch s s') (hs : Chosen data s) : Chosen data s' where
  toEncoded := hs.toEncoded.of_undisturbed h
  decoder := (h.vars _ (by simp [watch])).trans hs.decoder

theorem HasRun.of_undisturbed (h : Undisturbed watch s s') (hs : HasRun data s) : HasRun data s' where
  calls := h.calls.trans hs.calls
  goes := h.exited.trans hs.goes

theorem Decoded.with_status (h : Decoded data s) (status : ℕ) : Decoded data { s with status := status } :=
  ⟨h.command,h.calls,h.goes⟩

theorem is_quoted (text : String) : (quoted text).Is host s (bytes text.toList) := is_text true (.inl rfl)

theorem is_plain {text : String} (h : text.toList ≠ []) : (plain text).Is host s (bytes text.toList) :=
  is_text false (.inr h)

theorem carryOut_command {words : List Word} {head : Bytes} {args : List Bytes}
    (h : List.Forall₂ (fun word value => word.Is host { s with substituted := 0 } value) words (head :: args))
    (hexit : head ≠ bytes "exit".toList) :
    carryOut host (command words) input s = ({ s with
      substituted := 0
      runs := s.runs ++ [⟨head :: args,input⟩]
      status := (host.utility s.runs (head :: args) input).2 },(host.utility s.runs (head :: args) input).1) :=
  carryOut_utility (elements_words h) rfl hexit

theorem leads_chooseDecoder : Leads host (Encoded data) (set "mxterm_decode" (quoted "base64 -d")) (Chosen data) := by
  intro input s hs
  have hne : "MXTERM_CMD_B64".toList ≠ "mxterm_decode".toList := by decide
  have hkept : Function.update s.vars "mxterm_decode".toList (bytes "base64 -d".toList) "MXTERM_CMD_B64".toList =
      s.vars "MXTERM_CMD_B64".toList := Function.update_of_ne hne _ _
  have hchosen : Function.update s.vars "mxterm_decode".toList (bytes "base64 -d".toList) "mxterm_decode".toList =
      bytes "base64 -d".toList := Function.update_self ..
  exact ⟨⟨hkept.trans hs.encoded,hs.calls,hs.goes⟩,hchosen⟩

theorem encode_nothing : Utf8.encode (Base64.encodePadded Base64.standard []) = [] := rfl

/-- The decoder answers to what is empty, so that the other one is not chosen. -/
theorem leads_probe (hutilities : Utilities host) : Leads host (Chosen data) probe (Chosen data) := by
  intro input s hs
  have hprinted : (carryOut host (command [plain "printf",quoted ""]) input s).2 = [] := by
    have hes : elements host (.word (plain "printf") (.word (quoted "") .done)) { s with substituted := 0 } =
        ({ s with substituted := 0 },⟨[bytes "printf".toList,[]],[],false⟩) := by
      rfl
    exact (congrArg Prod.snd (carryOut_utility hes rfl (bytes_injective.mt (by decide)))).trans
      (hutilities.printfNothing s.runs input)
  have hdecoded (t : State) : (carryOut host (.simple (.word (plain "base64") (.word (plain "-d")
      (.redirect ['>'] (plain "/dev/null") (.redirect ['2','>','&'] (plain "1") .done))))) [] t).1.status = 0 := by
    have hes : elements host (.word (plain "base64") (.word (plain "-d") (.redirect ['>'] (plain "/dev/null")
        (.redirect ['2','>','&'] (plain "1") .done)))) { t with substituted := 0 } =
        ({ t with substituted := 0 },⟨[bytes "base64".toList,bytes "-d".toList],[],true⟩) := by
      rfl
    have hstatus := congrArg Prod.snd (hutilities.decodes t.runs [])
    exact (congrArg (State.status ∘ Prod.fst) (carryOut_utility hes rfl (bytes_injective.mt (by decide)))).trans hstatus
  have htried : (carryOut host tryDecoder input s).1.status = 0 := by
    rw [tryDecoder,carryOut,hprinted]
    exact hdecoded _
  have hprobe : carryOut host probe input s = carryOut host tryDecoder input s := by
    exact if_pos (.inr htried)
  rw [hprobe]
  exact hs.of_undisturbed (quiet_script _ quiet_parts.2.2.2.2.2.1 input s)

/-- Nothing of the command is lost where a script's output is taken. -/
theorem taken_encode {command : String} (hnul : '\x00' ∉ command.toList)
    (hlast : ∀ c ∈ command.toList.getLast?, c ≠ '\n') : taken (Utf8.encode command) = Utf8.encode command := by
  have hzero : ∀ b ∈ Utf8.encode command, decide (b ≠ 0) = true := by
    intro b hb
    rw [decide_eq_true_eq]
    rintro rfl
    exact hnul ((Utf8.mem_encode_ascii (c := '\x00') (by decide)).mp hb)
  rw [taken,List.filter_eq_self.mpr hzero,List.rdropWhile_eq_self_iff]
  intro hne hbyte
  rcases List.eq_nil_or_concat command.toList with hnil | ⟨chars,c,hconcat⟩
  · exact hne (by rw [Utf8.encode,hnil]; rfl)
  · have hnewline : c ≠ '\n' := hlast c (by rw [hconcat]; simp)
    have hbytes : Utf8.encode command = Utf8.encode (String.ofList chars) ++ Utf8.encode (String.ofList [c]) := by
      simp [Utf8.encode,hconcat]
    have hchar : Utf8.encode (String.ofList [c]) ≠ [] := bytes_ne_nil (List.cons_ne_nil c [])
    have hmem : (10 : UInt8) ∈ Utf8.encode (String.ofList [c]) := by
      rw [decide_eq_true_eq] at hbyte
      rw [← hbyte]
      simp only [hbytes,List.getLast_append_of_ne_nil _ hchar]
      exact List.getLast_mem hchar
    have hsame := (Utf8.mem_encode_ascii (c := '\n') (by decide)).mp hmem
    rw [String.toList_ofList,List.mem_singleton] at hsame
    exact hnewline hsame.symm

/-- The bytes of the decoder's name are two fields. -/
theorem fields_decoder : fields (.param false "mxterm_decode".toList .done)
    ((bytes "base64 -d".toList).map (·,true)) = [bytes "base64".toList,bytes "-d".toList] := by decide +kernel

/-- The call that prints the encoding. -/
theorem carryOut_print (hutilities : Utilities host) (h : s.vars "MXTERM_CMD_B64".toList = text) : ∃ status,
    carryOut host (command [plain "printf",plain "%s",param "MXTERM_CMD_B64"]) input s = ({ s with
      substituted := 0
      runs := s.runs ++ [⟨[bytes "printf".toList,bytes "%s".toList,text],input⟩]
      status := status },text) := by
  have hwords : List.Forall₂ (fun word value => word.Is host { s with substituted := 0 } value)
      [plain "printf",plain "%s",param "MXTERM_CMD_B64"] [bytes "printf".toList,bytes "%s".toList,text] :=
    .cons (is_plain (by decide)) (.cons (is_plain (by decide)) (.cons (is_param (by decide) h) .nil))
  have hcall : carryOut host _ input s = _ := carryOut_command hwords (bytes_injective.mt (by decide))
  rw [hutilities.printfText] at hcall
  exact ⟨_,hcall⟩

/-- The call of the decoder. -/
theorem carryOut_decoder (hutilities : Utilities host) (h : s.vars "mxterm_decode".toList = bytes "base64 -d".toList) :
    carryOut host (command [.param false "mxterm_decode".toList .done])
      (Utf8.encode (Base64.encodePadded Base64.standard data)) s = ({ s with
        substituted := 0
        runs := s.runs ++ [⟨[bytes "base64".toList,bytes "-d".toList],
          Utf8.encode (Base64.encodePadded Base64.standard data)⟩]
        status := 0 },data) := by
  have hmarks : (expand host (.param false "mxterm_decode".toList .done) { s with substituted := 0 }) =
      ({ s with substituted := 0 },(bytes "base64 -d".toList).map (·,true)) := by
    have hname : "mxterm_decode".toList ≠ ['?'] := by decide
    simp only [expand,State.value,if_neg hname,h,Prod.map,id,List.append_nil,Bool.not_false]
  have hes : elements host (.word (.param false "mxterm_decode".toList .done) .done) { s with substituted := 0 } =
      ({ s with substituted := 0 },⟨[bytes "base64".toList,bytes "-d".toList],[],false⟩) := by
    rw [elements,hmarks,fields_decoder]
    rfl
  have hcall : carryOut host _ (Utf8.encode (Base64.encodePadded Base64.standard data)) s = _ :=
    carryOut_utility hes rfl (bytes_injective.mt (by decide))
  rw [hutilities.decodes] at hcall
  exact hcall

/-- The decoder is given the encoding, and the shell is not called. -/
theorem carryOut_decodePipe (hutilities : Utilities host) (hs : Chosen data s) : ∃ runs, watch.calls runs = [] ∧
    carryOut host (.pipe (command [plain "printf",plain "%s",param "MXTERM_CMD_B64"])
      (command [.param false "mxterm_decode".toList .done])) [] { s with substituted := 0 } =
      ({ s with runs := runs, status := 0, substituted := 0 },data) := by
  have hother (runs : List Run) (args : List Bytes) {name : Bytes} (hname : name ≠ bytes watch.utility)
      (input : Bytes) : watch.calls (runs ++ [⟨name :: args,input⟩]) = watch.calls runs :=
    calls_other _ fun hhead => hname (Option.some.inj hhead)
  obtain ⟨status,hprint⟩ : ∃ status, carryOut host _ [] { s with substituted := 0 } = (_,_) :=
    carryOut_print hutilities hs.encoded
  refine ⟨_,?_,carryOut_pipe hprint (carryOut_decoder hutilities hs.decoder)⟩
  rw [hother _ _ (bytes_injective.mt (by decide)),hother _ _ (bytes_injective.mt (by decide))]
  exact hs.calls

/-- The command has been decoded, and the shell not been called. -/
theorem leads_decode (hutilities : Utilities host) (htaken : taken data = data) :
    Leads host (Chosen data) decode fun s => Decoded data s ∧ s.status = 0 := by
  intro input s hs
  obtain ⟨runs,hcalls,hpipe⟩ := carryOut_decodePipe hutilities hs
  let value : Word := .output true (.pipe (command [plain "printf",plain "%s",param "MXTERM_CMD_B64"])
    (command [.param false "mxterm_decode".toList .done])) (quoted "")
  have hvalue : expand host value { s with substituted := 0 } =
      ({ s with runs := runs, substituted := 0 },data.map (·,false)) := by
    have hempty : expand host (quoted "") { s with runs := runs, substituted := 0 } =
        ({ s with runs := runs, substituted := 0 },[]) := rfl
    rw [expand,hpipe,hempty,htaken]
    simp
  have hes : elements host (.assign "mxterm_cmd".toList value .done) { s with substituted := 0 } =
      ({ s with runs := runs, substituted := 0 },⟨[],[("mxterm_cmd".toList,data)],false⟩) := by
    rw [elements,hvalue,elements]
    simp only [Prod.map,id,fst_marks]
  have hdecode : carryOut host decode input s = ({ s with
      vars := Function.update s.vars "mxterm_cmd".toList data
      runs := runs
      status := 0
      substituted := 0 },[]) := carryOut_assign hes
  have hcommand : Function.update s.vars "mxterm_cmd".toList data "mxterm_cmd".toList = data := Function.update_self ..
  rw [hdecode]
  exact ⟨⟨hcommand,hcalls,hs.goes⟩,rfl⟩

theorem leads_checkDecoded (hutilities : Utilities host) (htaken : taken data = data) :
    Leads host (Chosen data) checkDecoded (Decoded data) := by
  intro input s hs
  obtain ⟨hdecoded,hstatus⟩ := leads_decode hutilities htaken input s hs
  have hgoes := hdecoded.goes
  have htested : (carryOut host (.seq (.not decode) .done) input s).1 =
      { (carryOut host decode input s).1 with status := 1 } := by
    simp only [Prod.map,id,hstatus,hgoes,carryOut]
    rfl
  have hchecked : (carryOut host checkDecoded input s).1 = { (carryOut host decode input s).1 with status := 0 } := by
    rw [checkDecoded,carryOut,htested]
    simp [hgoes]
  rw [hchecked]
  exact hdecoded.with_status 0

/-- The shell is called once, with the command. -/
theorem leads_runIt : Leads host (Decoded data) runIt (HasRun data) := by
  intro input s hs
  have hwords : List.Forall₂ (fun word value => word.Is host { s with substituted := 0 } value)
      [plain "/bin/sh",plain "-lc",param "mxterm_cmd"] (shellCall data) :=
    .cons (is_plain (by decide)) (.cons (is_plain (by decide)) (.cons (is_param (by decide) hs.command) .nil))
  have hcall : carryOut host runIt input s = _ := carryOut_command hwords (bytes_injective.mt (by decide))
  have hcalls : watch.calls (s.runs ++ [⟨shellCall data,input⟩]) = watch.calls s.runs ++ [shellCall data] :=
    calls_watched s.runs rfl
  rw [hcall]
  exact ⟨hcalls.trans (by rw [hs.calls,List.nil_append]),hs.goes⟩

/-- Whatever stands in the environment, the shell is called once, with the command. -/
theorem leads_wrapper (hutilities : Utilities host) (htaken : taken data = data) :
    Leads host (Encoded data) wrapper (fun s => watch.calls s.runs = [shellCall data]) := by
  have hgoes : ∀ s, Encoded data s → s.exited = false := fun s hs => hs.goes
  have hquiet {a : Script} (ha : a.isQuiet watch = true) : Leads host (Encoded data) a (Encoded data) :=
    leads_quiet ha fun s s' h hs => hs.of_undisturbed h
  have hafter {a : Script} (ha : a.isQuiet watch = true) : Leads host (HasRun data) a (HasRun data) :=
    leads_quiet ha fun s s' h hs => hs.of_undisturbed h
  have hleave : Leads host (HasRun data) (.seq leave .done) (fun s => watch.calls s.runs = [shellCall data]) := by
    intro input s hs
    have hwords : List.Forall₂ (fun word value => word.Is host { s with substituted := 0 } value)
        [plain "exit",param "mxterm_rc"] [bytes "exit".toList,s.vars "mxterm_rc".toList] :=
      .cons (is_plain (by decide)) (.cons (is_param (by decide) rfl) .nil)
    exact hs.calls
  obtain ⟨hdir,hmake,hfile,hredirect,hstart,-,hkeep,hend⟩ := quiet_parts
  refine leads_seq (hquiet hdir) hgoes (leads_seq (hquiet hmake) hgoes
    (leads_seq (hquiet hfile) hgoes (leads_group (fun s hs => ?_) ?_)))
  · exact Encoded.of_undisturbed (quiet_elements _ hredirect s).1 hs
  refine leads_seq (hquiet hstart) hgoes (leads_seq leads_chooseDecoder (fun s hs => hs.goes) ?_)
  refine leads_seq (leads_probe hutilities) (fun s hs => hs.goes) ?_
  refine leads_seq (leads_checkDecoded hutilities htaken) (fun s hs => hs.goes) ?_
  refine leads_seq leads_runIt (fun s hs => hs.goes) ?_
  exact leads_seq (hafter hkeep) (fun s hs => hs.goes) (leads_seq (hafter hend) (fun s hs => hs.goes) hleave)

end

/-! ## Reading the wrapper -/

theorem toList_append {s t : String} {a b : List Char} (hs : s.toList = a) (ht : t.toList = b) :
    (s ++ t).toList = a ++ b := by
  rw [String.toList_append,hs,ht]

theorem parse_runScript : parse runScript.toList = some wrapper := by
  have hscript : ∃ chars, runScript.toList = chars ∧ parse chars = some wrapper := by
    refine ⟨_,toList_append (toList_append (toList_append (toList_append (toList_append (toList_append (toList_append
      (toList_append (toList_append (toList_append String.toList_ofList String.toList_ofList) String.toList_ofList)
      String.toList_ofList) String.toList_ofList) String.toList_ofList) String.toList_ofList) String.toList_ofList)
      String.toList_ofList) String.toList_ofList) String.toList_ofList,?_⟩
    decide +kernel
  obtain ⟨chars,heq,hparse⟩ := hscript
  rwa [heq]

end Mxterm.ScheduledTasks
