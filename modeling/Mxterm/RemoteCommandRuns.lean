import Mxterm.RemoteCommands

/-! When a repeated command has the result of a single one. -/
namespace Mxterm.RemoteCommands

open Execution LossyCalls

variable {φ : Type} {shell : Shell φ} {command : Command} {w w' : World Occasion φ} {files files' : φ} {x y : Occasion}
  {output : ExecOutput} {code message path : String}

/-! ## One execution -/

theorem perform_of_some (h : attempted shell x command files = some files') :
    perform shell command x files = (⟨printed shell files' command,[],some 0⟩,files') := by
  simp only [perform,h]

theorem perform_of_none (h : attempted shell x command files = none) :
    perform shell command x files = (⟨[],x.message,some (x.code + 1)⟩,files) := by
  simp only [perform,h]

theorem effect_of_attempted (h : attempted shell x command files = some files') :
    effect shell x.moment files command = some files' := by
  rw [attempted] at h
  split_ifs at h
  exact h

theorem attempted_of_effect (h : attempted shell x command files = some files') {other : φ}
    (heffect : effect shell x.moment other command = some files') : attempted shell x command other = some files' := by
  rw [attempted] at h ⊢
  split_ifs at h with hfails
  rw [if_neg hfails]
  exact heffect

theorem attempted_metadata (h : attempted shell x (.metadata path) files = some files') :
    files' = files ∧ shell.isRegular files path = true := by
  have heffect := effect_of_attempted h
  rw [effect] at heffect
  split_ifs at heffect with hregular
  exact ⟨(Option.some.inj heffect).symm,hregular⟩

/-- What a command needs so that it can be repeated at all: only a regular file is written. -/
def Writes (shell : Shell φ) (command : Command) (files : φ) : Prop :=
  ∀ path content, command = .write path content → shell.isRegular files path = true

/-- A command that has changed the files fails when it is repeated, or does what it would have done without the first
execution. -/
theorem attempted_again (hwrites : Writes shell command files) (h : attempted shell x command files = some files')
    (hchanged : files' ≠ files) {later : φ} (hagain : attempted shell y command files' = some later) :
    attempted shell y command files = some later := by
  have heffect := effect_of_attempted h
  have hrepeat := effect_of_attempted hagain
  cases command with
  | metadata path => exact absurd (attempted_metadata h).1 hchanged
  | create path =>
    rw [effect] at heffect hrepeat
    split_ifs at heffect
    rw [if_pos (shell.created_there heffect)] at hrepeat
    cases hrepeat
  | rename path newPath =>
    rw [effect] at heffect hrepeat
    rw [shell.moved_away heffect] at hrepeat
    cases hrepeat
  | write path content =>
    apply attempted_of_effect hagain
    exact shell.saved_again (hwrites path content rfl) heffect _ _ hrepeat

/-- The answer to a command, repeated or not, is that of one execution. -/
theorem exec_single (hwrites : Writes shell command w.store) (hknown : ¬EffectLost shell command w)
    (h : execWithReconnect shell command w = .ok output w') :
    ∃ x, perform shell command x w.store = (output,w'.store) := by
  obtain ⟨x,-,hx⟩ | ⟨executed,y,hlost,hanswered,hy⟩ := callAgain_ok h
  · exact ⟨x,hx⟩
  · refine ⟨y,?_⟩
    cases executed with
    | none => exact hy
    | some x =>
      cases hfirst : attempted shell x command w.store with
      | none =>
        have hkept : settled (perform shell command) (some x) w.store = w.store := by
          rw [settled,perform_of_none hfirst]
        rwa [hkept] at hy
      | some files =>
        have hleft : settled (perform shell command) (some x) w.store = files := by
          rw [settled,perform_of_some hfirst]
        rw [hleft] at hy
        by_cases hchanged : files = w.store
        · rwa [hchanged] at hy
        · cases hsecond : attempted shell y command files with
          | none => exact absurd ⟨x,y,files,hlost,hanswered,hfirst,hchanged,hsecond⟩ hknown
          | some later =>
            rw [perform_of_some hsecond] at hy
            rw [perform_of_some (attempted_again hwrites hfirst hchanged hsecond)]
            exact hy

/-! ## Checked commands -/

theorem execChecked_returns (h : attempted shell x command files = some files') :
    Returns (execChecked shell command code message) files [x] ⟨printed shell files' command,[],some 0⟩ files' := by
  have hcall := Returns.callAgain Failure.connection (perform shell command) x files
  rw [perform_of_some h] at hcall
  exact hcall.bind Returns.pure

theorem execChecked_fails (h : attempted shell x command files = none) :
    Fails (execChecked shell command code message) files [x]
      (.command (remoteFileCommandError code message ⟨[],x.message,some (x.code + 1)⟩)) files := by
  have hcall := Returns.callAgain Failure.connection (perform shell command) x files
  rw [perform_of_none h] at hcall
  exact hcall.bind_fails Fails.throw

theorem execChecked_ok (hwrites : Writes shell command w.store) (hknown : ¬EffectLost shell command w)
    (h : execChecked shell command code message w = .ok output w') :
    ∃ x, attempted shell x command w.store = some w'.store ∧ output = ⟨printed shell w'.store command,[],some 0⟩ := by
  obtain ⟨out,v,hexec,hcheck⟩ := (bind_ok _ _ _ _ _).mp h
  split_ifs at hcheck with hstatus
  · obtain ⟨rfl,rfl⟩ := (pure_ok _ _ _ _).mp hcheck
    obtain ⟨x,hx⟩ := exec_single hwrites hknown hexec
    cases hattempted : attempted shell x command w.store with
    | none =>
      rw [perform_of_none hattempted] at hx
      rw [← (Prod.mk.inj hx).1] at hstatus
      cases hstatus
    | some files =>
      rw [perform_of_some hattempted] at hx
      cases hx
      exact ⟨x,hattempted,rfl⟩
  · cases hcheck

variable {e : Failure}

theorem execChecked_error (hwrites : Writes shell command w.store) (hknown : ¬EffectLost shell command w)
    (h : execChecked shell command code message w = .error e w') :
    e = .connection ∨ ∃ x, attempted shell x command w.store = none ∧ w'.store = w.store ∧
      e = .command (remoteFileCommandError code message ⟨[],x.message,some (x.code + 1)⟩) := by
  obtain hexec | ⟨out,v,hexec,hcheck⟩ := (bind_error _ _ _ _ _).mp h
  · exact .inl (callAgain_error hexec)
  · split_ifs at hcheck with hstatus
    · cases hcheck
    · obtain ⟨rfl,rfl⟩ := EStateM.Result.error.inj hcheck
      obtain ⟨x,hx⟩ := exec_single hwrites hknown hexec
      cases hattempted : attempted shell x command w.store with
      | none =>
        rw [perform_of_none hattempted] at hx
        obtain ⟨rfl,hstore⟩ := Prod.mk.inj hx
        exact .inr ⟨x,hattempted,hstore.symm,rfl⟩
      | some files =>
        rw [perform_of_some hattempted] at hx
        rw [← (Prod.mk.inj hx).1] at hstatus
        exact absurd rfl hstatus

/-- The error of a command that was executed twice. -/
theorem execChecked_lost (code message : String) (h : EffectLost shell command w) :
    ∃ error w', execChecked shell command code message w = .error (.command error) w' ∧ error.code = code ∧
      w'.store ≠ w.store := by
  obtain ⟨x,y,files,hlost,hanswered,hfirst,hchanged,hsecond⟩ := h
  have hleft : settled (perform shell command) (some x) w.store = files := by
    rw [settled,perform_of_some hfirst]
  have hcall := callAgain_lost Failure.connection (perform shell command) hlost hanswered
  rw [hleft,perform_of_none hsecond] at hcall
  exact ⟨_,_,bind_of_ok hcall _,rfl,hchanged⟩

/-! ## Metadata -/

theorem metadata_known (w : World Occasion φ) : ¬EffectLost shell (.metadata path) w := by
  rintro ⟨x,y,files,-,-,hfirst,hchanged,-⟩
  exact hchanged (attempted_metadata hfirst).1

theorem metadata_writes (files : φ) : Writes shell (.metadata path) files := nofun

theorem parsedMetadata_ok {current : RemoteFileMetadata} (h : parsedMetadata output w = .ok current w') :
    w' = w ∧ ∀ files : φ, Returns (parsedMetadata output) files [] current files := by
  rw [parsedMetadata] at h
  cases hparse : parseRemoteFileMetadata output.stdout with
  | none =>
    rw [hparse] at h
    cases h
  | some metadata =>
    rw [hparse] at h
    cases h
    refine ⟨rfl,fun files => ?_⟩
    rw [parsedMetadata,hparse]
    exact Returns.pure

theorem parsedMetadata_error (h : parsedMetadata output w = .error e w') :
    w' = w ∧ (∃ error, e = .command error ∧ error.code = "remote_file_metadata_parse_failed") ∧
      ∀ files : φ, Fails (parsedMetadata output) files [] e files := by
  rw [parsedMetadata] at h
  cases hparse : parseRemoteFileMetadata output.stdout with
  | some metadata =>
    rw [hparse] at h
    cases h
  | none =>
    rw [hparse] at h
    cases h
    refine ⟨rfl,⟨_,rfl,rfl⟩,fun files => ?_⟩
    rw [parsedMetadata,hparse]
    exact Fails.throw

/-- Metadata that are read are those of one execution, which has left the files. -/
theorem metadata_ok {current : RemoteFileMetadata} (h : metadata shell path w = .ok current w') :
    w'.store = w.store ∧ shell.isRegular w.store path = true ∧
      ∃ x, Returns (metadata shell path) w.store [x] current w.store := by
  obtain ⟨output,v,hchecked,hparse⟩ := (bind_ok _ _ _ _ _).mp h
  obtain ⟨x,hx,rfl⟩ := execChecked_ok (metadata_writes _) (metadata_known w) hchecked
  obtain ⟨rfl,hreturns⟩ := parsedMetadata_ok hparse
  obtain ⟨hkept,hregular⟩ := attempted_metadata hx
  rw [hkept] at hx hreturns
  exact ⟨hkept,hregular,x,(execChecked_returns hx).bind (hreturns w.store)⟩

/-- An error is that of the connection, or of one execution that has left the files. -/
theorem metadata_error (h : metadata shell path w = .error e w') :
    e = .connection ∨ w'.store = w.store ∧
      (∃ error, e = .command error ∧
        (error.code = "remote_file_metadata_failed" ∨ error.code = "remote_file_metadata_parse_failed")) ∧
      ∃ x, Fails (metadata shell path) w.store [x] e w.store := by
  obtain hchecked | ⟨output,v,hchecked,hparse⟩ := (bind_error _ _ _ _ _).mp h
  · obtain rfl | ⟨x,hx,hkept,rfl⟩ := execChecked_error (metadata_writes _) (metadata_known w) hchecked
    · exact .inl rfl
    · exact .inr ⟨hkept,⟨_,rfl,.inl rfl⟩,x,(execChecked_fails hx).bind⟩
  · obtain ⟨x,hx,rfl⟩ := execChecked_ok (metadata_writes _) (metadata_known w) hchecked
    obtain ⟨rfl,⟨error,rfl,hcode⟩,hfails⟩ := parsedMetadata_error hparse
    obtain ⟨hkept,-⟩ := attempted_metadata hx
    rw [hkept] at hx hfails
    exact .inr ⟨hkept,⟨error,rfl,.inr hcode⟩,x,(execChecked_returns hx).bind_fails (hfails w.store)⟩

/-! ## Requests -/

/-- What follows on the changing command. -/
def Request.afterwards (shell : Shell φ) : Request → Remote φ Answer
  | .create path => metadata shell path >>= fun metadata => pure (.created metadata)
  | .rename _ _ => pure .renamed
  | .write path _ _ _ _ => metadata shell path >>= fun metadata => pure (.written ⟨metadata,false⟩)

def Request.failureCode : Request → String
  | .create _ => "remote_file_create_failed"
  | .rename _ _ => "remote_file_rename_failed"
  | .write _ _ _ _ _ => "remote_file_write_failed"

def Request.failureText : Request → String
  | .create _ => "远程文件创建失败。"
  | .rename _ _ => "远程条目重命名失败。"
  | .write _ _ _ _ _ => "远程文件保存失败。"

/-- The changing command and what follows on it. -/
def Request.change (shell : Shell φ) (request : Request) : Remote φ Answer :=
  execChecked shell request.command request.failureCode request.failureText >>= fun _ => request.afterwards shell

/-- What comes before the changing command. -/
def Request.before (shell : Shell φ) : Request → Remote φ Unit
  | .write path _ expectedMtime expectedSize overwrite => metadata shell path >>= fun current =>
    if Refused expectedMtime expectedSize overwrite current then
      throw (.conflict (remoteFileConflict expectedMtime expectedSize current))
    else pure ()
  | _ => pure ()

/-- Every request looks at the files first, changes them, and reports. -/
theorem run_eq (request : Request) :
    request.run shell = request.before shell >>= fun _ => request.change shell := by
  cases request with
  | create path =>
    simp only [Request.run,Request.before,Request.change,Request.afterwards,createFile,bind_assoc,pure_bind]
    rfl
  | rename path newPath =>
    simp only [Request.run,Request.before,Request.change,Request.afterwards,renameEntry,bind_assoc,pure_bind]
    rfl
  | write path content expectedMtime expectedSize overwrite =>
    simp only [Request.run,Request.before,Request.change,Request.afterwards,writeFile,bind_assoc]
    congr 1
    funext current
    split_ifs with hrefused
    · rfl
    · simp only [bind_assoc,pure_bind]
      rfl

variable {answer : Answer}

theorem report_ok {report : RemoteFileMetadata → Answer}
    (h : (metadata shell path >>= fun metadata => pure (report metadata)) w = .ok answer w') :
    w'.store = w.store ∧ ∃ xs,
      Returns (metadata shell path >>= fun metadata => pure (report metadata)) w.store xs answer w.store := by
  obtain ⟨current,v,hmetadata,hpure⟩ := (bind_ok _ _ _ _ _).mp h
  obtain ⟨rfl,rfl⟩ := (pure_ok _ _ _ _).mp hpure
  obtain ⟨hkept,-,x,hreturns⟩ := metadata_ok hmetadata
  exact ⟨hkept,_,hreturns.bind Returns.pure⟩

/-- A failure to read metadata, with an error of its own. -/
structure MetadataFailure (e : Failure) (error : AppError) : Prop where
  eq : e = .command error
  code : error.code = "remote_file_metadata_failed" ∨ error.code = "remote_file_metadata_parse_failed"

theorem report_error {report : RemoteFileMetadata → Answer}
    (h : (metadata shell path >>= fun metadata => pure (report metadata)) w = .error e w') :
    e = .connection ∨ w'.store = w.store ∧ (∃ error, MetadataFailure e error) ∧ ∃ xs,
      Fails (metadata shell path >>= fun metadata => pure (report metadata)) w.store xs e w.store := by
  obtain hmetadata | ⟨current,v,hmetadata,hpure⟩ := (bind_error _ _ _ _ _).mp h
  · obtain rfl | ⟨hkept,⟨error,heq,hcode⟩,x,hfails⟩ := metadata_error hmetadata
    · exact .inl rfl
    · exact .inr ⟨hkept,⟨error,heq,hcode⟩,_,hfails.bind⟩
  · exact absurd hpure (pure_not_error _ _ _ _)

variable {request : Request}

theorem afterwards_ok (h : request.afterwards shell w = .ok answer w') :
    w'.store = w.store ∧ ∃ xs, Returns (request.afterwards shell) w.store xs answer w.store := by
  cases request with
  | create path => exact report_ok h
  | rename path newPath =>
    obtain ⟨rfl,rfl⟩ := (pure_ok _ _ _ _).mp h
    exact ⟨rfl,[],Returns.pure⟩
  | write path content expectedMtime expectedSize overwrite => exact report_ok h

theorem afterwards_error (h : request.afterwards shell w = .error e w') :
    e = .connection ∨ w'.store = w.store ∧ (∃ error, MetadataFailure e error) ∧ ∃ xs,
      Fails (request.afterwards shell) w.store xs e w.store := by
  cases request with
  | create path => exact report_error h
  | rename path newPath => exact absurd h (pure_not_error _ _ _ _)
  | write path content expectedMtime expectedSize overwrite => exact report_error h

/-- With its effect known, a change has the result of a run with one execution for each command. -/
theorem change_ok (hwrites : Writes shell request.command w.store) (hknown : ¬EffectLost shell request.command w)
    (h : request.change shell w = .ok answer w') : ∃ xs, Returns (request.change shell) w.store xs answer w'.store := by
  obtain ⟨output,v,hchecked,hafter⟩ := (bind_ok _ _ _ _ _).mp h
  obtain ⟨x,hx,rfl⟩ := execChecked_ok hwrites hknown hchecked
  obtain ⟨hkept,xs,hreturns⟩ := afterwards_ok hafter
  rw [hkept]
  exact ⟨_,(execChecked_returns hx).bind hreturns⟩

theorem change_error (hwrites : Writes shell request.command w.store) (hknown : ¬EffectLost shell request.command w)
    (h : request.change shell w = .error e w') :
    e = .connection ∨ ∃ xs, Fails (request.change shell) w.store xs e w'.store := by
  obtain hchecked | ⟨output,v,hchecked,hafter⟩ := (bind_error _ _ _ _ _).mp h
  · obtain rfl | ⟨x,hx,hkept,rfl⟩ := execChecked_error hwrites hknown hchecked
    · exact .inl rfl
    · rw [hkept]
      exact .inr ⟨_,(execChecked_fails hx).bind⟩
  · obtain ⟨x,hx,rfl⟩ := execChecked_ok hwrites hknown hchecked
    obtain rfl | ⟨hkept,-,xs,hfails⟩ := afterwards_error hafter
    · exact .inl rfl
    · rw [hkept]
      exact .inr ⟨_,(execChecked_returns hx).bind_fails hfails⟩

/-- Before the change the files are only looked at; the command is sent in the world that is left. -/
theorem before_ok (h : request.before shell w = .ok () w') :
    request.sending shell w = some w' ∧ w'.store = w.store ∧ Writes shell request.command w.store ∧
      ∃ xs, Returns (request.before shell) w.store xs () w.store := by
  cases request with
  | create path =>
    obtain ⟨-,rfl⟩ := (pure_ok _ _ _ _).mp h
    exact ⟨rfl,rfl,nofun,[],Returns.pure⟩
  | rename path newPath =>
    obtain ⟨-,rfl⟩ := (pure_ok _ _ _ _).mp h
    exact ⟨rfl,rfl,nofun,[],Returns.pure⟩
  | write path content expectedMtime expectedSize overwrite =>
    obtain ⟨current,v,hmetadata,hcheck⟩ := (bind_ok _ _ _ _ _).mp h
    split_ifs at hcheck with hrefused
    · cases hcheck
    · obtain ⟨-,rfl⟩ := (pure_ok _ _ _ _).mp hcheck
      obtain ⟨hkept,hregular,x,hreturns⟩ := metadata_ok hmetadata
      refine ⟨?_,hkept,?_,?_⟩
      · rw [Request.sending,hmetadata]
        exact if_neg hrefused
      · rintro _ _ ⟨⟩
        exact hregular
      · refine ⟨_,hreturns.bind (q := []) ?_⟩
        rw [if_neg hrefused]
        exact Returns.pure

theorem before_error (h : request.before shell w = .error e w') :
    request.sending shell w = none ∧ (e = .connection ∨ w'.store = w.store ∧
      ((∃ error, MetadataFailure e error) ∨ ∃ error, e = .conflict error) ∧
      ∃ xs, Fails (request.before shell) w.store xs e w.store) := by
  cases request with
  | create | rename => exact absurd h (pure_not_error _ _ _ _)
  | write path content expectedMtime expectedSize overwrite =>
    obtain hmetadata | ⟨current,v,hmetadata,hcheck⟩ := (bind_error _ _ _ _ _).mp h
    · refine ⟨by rw [Request.sending,hmetadata],?_⟩
      obtain rfl | ⟨hkept,⟨error,heq,hcode⟩,x,hfails⟩ := metadata_error hmetadata
      · exact .inl rfl
      · exact .inr ⟨hkept,.inl ⟨error,heq,hcode⟩,_,hfails.bind⟩
    · split_ifs at hcheck with hrefused
      · obtain ⟨rfl,rfl⟩ := EStateM.Result.error.inj hcheck
        obtain ⟨hkept,-,x,hreturns⟩ := metadata_ok hmetadata
        refine ⟨?_,.inr ⟨hkept,.inr ⟨_,rfl⟩,_,hreturns.bind_fails (q := []) ?_⟩⟩
        · rw [Request.sending,hmetadata]
          exact if_pos hrefused
        · rw [if_pos hrefused]
          exact Fails.throw
      · cases hcheck

/-! ## The result of a request -/

theorem seen_ok {x : Remote φ Answer} (h : x w = .ok answer w') :
    seen (x w) = (.ok answer,w'.store) := by rw [h]; rfl

theorem seen_error {x : Remote φ Answer} (h : x w = .error e w') :
    seen (x w) = (.error e,w'.store) := by rw [h]; rfl

theorem ownResult_of_known (hknown : EffectKnown shell request w) : OwnResult shell request w := by
  intro hconnection
  rw [run_eq] at hconnection ⊢
  cases hbefore : request.before shell w with
  | error e v =>
    have hrun := bind_of_error hbefore fun _ => request.change shell
    rw [seen_error hrun] at hconnection ⊢
    obtain ⟨-,rfl | ⟨hkept,-,xs,hfails⟩⟩ := before_error hbefore
    · exact absurd rfl (hconnection _)
    · rw [hkept]
      exact hfails.bind.once
  | ok u v =>
    obtain ⟨hsending,hkept,hwrites,xs,hreturns⟩ := before_ok hbefore
    have hknown' := hknown v hsending
    rw [← hkept] at hwrites hreturns
    have hrun := bind_of_ok hbefore fun _ => request.change shell
    cases hchange : request.change shell v with
    | ok answer t =>
      rw [hchange] at hrun
      rw [seen_ok hrun,← hkept]
      obtain ⟨ys,hchanged⟩ := change_ok hwrites hknown' hchange
      exact (hreturns.bind hchanged).once
    | error e t =>
      rw [hchange] at hrun
      rw [seen_error hrun] at hconnection ⊢
      rw [← hkept]
      obtain rfl | ⟨ys,hchanged⟩ := change_error hwrites hknown' hchange
      · exact absurd rfl (hconnection _)
      · exact (hreturns.bind_fails hchanged).once

theorem answered_known (h : Answered w) : ¬EffectLost shell command w := by
  rintro ⟨x,y,files,hlost,-⟩
  obtain ⟨z,hz⟩ := h 0
  rw [hz] at hlost
  cases hlost

theorem maintains_execChecked : Maintains Answered (execChecked shell command code message) := by
  refine Maintains.bind (maintains_callAgain _ _) fun output => ?_
  split_ifs
  · exact Maintains.pure _
  · exact Maintains.throw _

theorem maintains_metadata : Maintains Answered (metadata shell path) := by
  refine Maintains.bind maintains_execChecked fun output => ?_
  rw [parsedMetadata]
  cases parseRemoteFileMetadata output.stdout with
  | none => exact Maintains.throw _
  | some metadata => exact Maintains.pure _

theorem maintains_before (request : Request) : Maintains Answered (request.before shell) := by
  cases request with
  | create | rename => exact Maintains.pure _
  | write path content expectedMtime expectedSize overwrite =>
    refine Maintains.bind maintains_metadata fun current => ?_
    split_ifs
    · exact Maintains.throw _
    · exact Maintains.pure _

theorem MetadataFailure.ne {error own : AppError} (h : MetadataFailure e error)
    (hcode : own.code = request.failureCode) : e ≠ .command own := by
  rintro rfl
  obtain rfl := Failure.command.inj h.eq
  have hne : request.failureCode ≠ "remote_file_metadata_failed" ∧
      request.failureCode ≠ "remote_file_metadata_parse_failed" := by
    cases request <;> simp [Request.failureCode]
  rcases h.code with heq | heq
  · exact hne.1 (hcode.symm.trans heq)
  · exact hne.2 (hcode.symm.trans heq)

/-- When every command is executed once, the error of the changing command leaves the files. -/
theorem once_failed {error : AppError} (hcode : error.code = request.failureCode)
    (h : Once (request.run shell) files (.error (.command error),files')) : files' = files := by
  obtain ⟨executions,hseen⟩ := h
  rw [run_eq] at hseen
  have hanswered := answered_reliable files executions
  cases hbefore : request.before shell (reliable files executions) with
  | error e v =>
    rw [seen_error (bind_of_error hbefore _)] at hseen
    obtain ⟨he,rfl⟩ := Prod.mk.inj hseen
    cases he
    obtain ⟨-,hconnection | ⟨hkept,-⟩⟩ := before_error hbefore
    · cases hconnection
    · exact hkept
  | ok u v =>
    obtain ⟨-,hkept,hwrites,-⟩ := before_ok hbefore
    rw [bind_of_ok hbefore] at hseen
    rw [← hkept] at hwrites
    have hknown : ¬EffectLost shell request.command v :=
      answered_known ((maintains_before request).of_ok hanswered hbefore)
    cases hchecked : execChecked shell request.command request.failureCode request.failureText v with
    | error e t =>
      rw [Request.change,seen_error (bind_of_error hchecked _)] at hseen
      obtain ⟨he,rfl⟩ := Prod.mk.inj hseen
      cases he
      obtain hconnection | ⟨x,-,hstore,-⟩ := execChecked_error hwrites hknown hchecked
      · cases hconnection
      · exact hstore.trans hkept
    | ok output t =>
      rw [Request.change,bind_of_ok hchecked] at hseen
      cases hafter : request.afterwards shell t with
      | ok answer u =>
        rw [seen_ok hafter] at hseen
        cases hseen
      | error e u =>
        rw [seen_error hafter] at hseen
        cases (Prod.mk.inj hseen).1
        obtain hconnection | ⟨-,⟨other,hfailure⟩,-⟩ := afterwards_error hafter
        · cases hconnection
        · exact absurd rfl (hfailure.ne hcode)

theorem known_of_ownResult (h : OwnResult shell request w) : EffectKnown shell request w := by
  intro v hsending hlost
  have hbefore : request.before shell w = .ok () v := by
    cases hrun : request.before shell w with
    | error e u =>
      rw [(before_error hrun).1] at hsending
      cases hsending
    | ok u t =>
      rw [(before_ok hrun).1] at hsending
      rw [Option.mem_some_iff.mp hsending]
  obtain ⟨-,hkept,-⟩ := before_ok hbefore
  obtain ⟨error,t,hfailed,hcode,hchanged⟩ := execChecked_lost request.failureCode request.failureText hlost
  have hrun : request.run shell w = .error (.command error) t := by
    rw [run_eq,bind_of_ok hbefore,Request.change,bind_of_error hfailed]
  have hseen := seen_error hrun
  rw [OwnResult,hseen] at h
  have honce := h nofun
  exact hchanged ((once_failed hcode honce).trans hkept.symm)

/-- A request that is not cut off has the result of a run in which every command is executed once, exactly when the
changing command was not executed unnoticed before an attempt that failed. -/
theorem own_result_iff (shell : Shell φ) (request : Request) (w : World Occasion φ) :
    OwnResult shell request w ↔ EffectKnown shell request w := by
  constructor
  · exact known_of_ownResult
  · exact ownResult_of_known

/-! ## A file that is created by a command whose answer is lost -/

/-- Files by name in one directory that everyone may write. -/
def flatShell : Shell (String → Option (List UInt8)) where
  isThere files path := (files path).isSome
  isRegular files path := (files path).isSome
  stat files path := Utf8.encode (path ++ "\x00" ++ toString ((files path).getD []).length ++ "\x000\x00644\x00")
  created _ files path := some (Function.update files path (some []))
  moved _ files path newPath :=
    if (files path).isSome ∧ path ≠ newPath then
      some (Function.update (Function.update files newPath (files path)) path none)
    else none
  saved _ files path content := some (Function.update files path (some content))
  created_there h := by
    cases h
    simp
  moved_away h later := by
    split_ifs at h with hmoved
    cases h
    simp
  saved_again _ h later files'' hagain := by
    cases h
    rw [Function.update_idem] at hagain
    exact hagain

/-- The connection drops after the first execution, and the second one is answered. -/
def droppedOnce : World Occasion (String → Option (List UInt8)) where
  store := fun _ => none
  attempts := fun
    | 0 => .lost (some ⟨0,false,[],0⟩)
    | _ => .answered ⟨1,false,Utf8.encode "already exists: notes.txt\n",1⟩

theorem created_twice : ¬OwnResult flatShell (.create "notes.txt") droppedOnce := by
  intro h
  have hlost : EffectLost flatShell (.create "notes.txt") droppedOnce := by
    refine ⟨_,_,Function.update (fun _ => none) "notes.txt" (some []),rfl,rfl,rfl,?_,?_⟩
    · intro hsame
      have hfile := congrFun hsame "notes.txt"
      cases hfile
    · simp [attempted,effect,flatShell]
  exact known_of_ownResult h _ rfl hlost

end Mxterm.RemoteCommands
