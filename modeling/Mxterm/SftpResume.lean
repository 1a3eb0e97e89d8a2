import Mxterm.SftpTransfers

/-! What a transfer that is resumed leaves behind, whatever fails. -/
namespace Mxterm.SftpTransfers

open Faults FileTrees SlashPaths Execution List Function

variable {t s : FileTree} {part final : Path} {source old rest : Bytes} {error : TransferError}

/-- The bytes of the part file that are kept. -/
def keptBytes (old : Bytes) (totalBytes : ℕ) : Bytes := if old.length ≤ totalBytes then old else []

/-- What the part file becomes in the end. -/
def resumed (old source : Bytes) : Bytes :=
  keptBytes old source.length ++ source.drop (keptBytes old source.length).length

/-- An earlier transfer of the same content may go on where it was interrupted. -/
def Resumable (t : FileTree) (part : Path) (source : Bytes) : Prop :=
  ∀ old, t.node part = some (.file old) → old.length ≤ source.length → old <+: source

theorem keptBytes_length (old : Bytes) (totalBytes : ℕ) :
    (keptBytes old totalBytes).length = resumeOffsetForPartial old.length totalBytes := by
  rw [keptBytes,resumeOffsetForPartial]
  split_ifs
  · rfl
  · rfl

theorem resumed_of_prefix (h : old.length ≤ source.length → old <+: source) : resumed old source = source := by
  rw [resumed,keptBytes]
  by_cases hle : old.length ≤ source.length
  · rw [if_pos hle]
    obtain ⟨more,rfl⟩ := h hle
    rw [drop_left]
  · rw [if_neg hle]
    rfl

/-! ## The bytes -/

/-- The tree with other content in one file. -/
def Puts (t : FileTree) (part : Path) (content : Bytes) (s : FileTree) : Prop :=
  s.node = Function.update t.node part (some (.file content))

variable {content : Bytes}

theorem Puts.self (h : s.node part = some (.file content)) : Puts s part content s := by
  rw [Puts,← h,update_eq_self]

theorem Puts.node (h : Puts t part content s) : s.node part = some (.file content) := by
  rw [h,update_self]

variable {s' : FileTree}

theorem Puts.trans {more : Bytes} (h : Puts t part content s) (h' : Puts s part more s') : Puts t part more s' := by
  rw [Puts,h',h,update_idem]

/-- Some bytes of the rest are there behind the content. -/
def Begun (t : FileTree) (part : Path) (content rest : Bytes) (s : FileTree) : Prop :=
  ∃ k, Puts t part (content ++ rest.take k) s

theorem Begun.nothing (h : s.node part = some (.file content)) : Begun s part content rest s :=
  ⟨0,by rw [take_zero,append_nil]; exact .self h⟩

variable {E : FileTree → Prop}

theorem brings_touch {Q : Unit → FileTree → Prop} (hQ : Q () s) (hE : E s) :
    Brings (touch error) Q E s := Brings.lookOrFail (fun _ _ => hQ) hE

theorem brings_seek {c : Prop} [Decidable c] {Q : Unit → FileTree → Prop} (hQ : Q () s) (hE : E s) :
    Brings (runIf c (touch error)) Q E s := Brings.runIf (fun _ => brings_touch hQ hE) fun _ => hQ

theorem writeAt_ok {bytes : Bytes} (hs : s.node part = some (.file content))
    (h : s.writeAt part content.length bytes = .ok s') : Puts s part (content ++ bytes) s' := by
  rw [FileTree.writeAt,FileTree.content_of_file hs,FileTree.splice_length] at h
  exact (FileTree.writeFile_ok h).1

/-- A chunk is appended, or a part of it is. -/
theorem brings_writeChunk {bytes : Bytes} (hs : s.node part = some (.file content)) :
    Brings (writeChunk error part content.length bytes) (fun _ s' => Puts s part (content ++ bytes) s')
      (Begun s part content bytes) s := by
  apply Brings.performOrFail
  · intro s' hwrite
    have hputs := writeAt_ok hs hwrite
    exact ⟨hputs,bytes.length,by rwa [take_length]⟩
  · exact Begun.nothing hs
  · intro n
    cases hwrite : s.writeAt part content.length (bytes.take n) with
    | error e => exact Begun.nothing hs
    | ok s' => exact ⟨n,writeAt_ok hs hwrite⟩

variable {s₁ s₂ : FileTree} {read : ℕ}

/-- What is written behind a chunk is written behind what was there before it. -/
theorem Puts.chunk {more : Bytes} (h₁ : Puts s part (content ++ rest.take read) s₁)
    (h₂ : Puts s₁ part (content ++ rest.take read ++ more) s₂) :
    Puts s part (content ++ (rest.take read ++ more)) s₂ := by
  rw [append_assoc] at h₂
  exact h₁.trans h₂

theorem Begun.chunk (h₁ : Puts s part (content ++ rest.take read) s₁)
    (h₂ : Begun s₁ part (content ++ rest.take read) (rest.drop read) s₂) : Begun s part content rest s₂ := by
  obtain ⟨k,hk⟩ := h₂
  exact ⟨read + k,by rw [take_add]; exact h₁.chunk hk⟩

theorem Begun.take (h : Begun t part content (rest.take read) s) : Begun t part content rest s := by
  obtain ⟨k,hk⟩ := h
  exact ⟨min k read,by rwa [take_take] at hk⟩

theorem chunk_length (hle : read ≤ rest.length) : content.length + read = (content ++ rest.take read).length := by
  rw [length_append,length_take_of_le hle]

theorem brings_uploadChunks {n : ℕ} (hs : s.node part = some (.file content)) (hn : rest.length ≤ n) :
    Brings (uploadChunks part n rest content.length) (fun _ s' => Puts s part (content ++ rest) s')
      (Begun s part content rest) s := by
  have hdone (hrest : rest = []) : Puts s part (content ++ rest) s := by
    rw [hrest,append_nil]
    exact .self hs
  induction n generalizing s content rest with
  | zero =>
    have hputs := hdone (length_eq_zero_iff.mp (Nat.le_zero.mp hn))
    exact Brings.bind (brings_touch (brings_touch hputs (.nothing hs)) (.nothing hs))
  | succ n ih =>
    refine Brings.bind (brings_touch ?_ (.nothing hs))
    refine Brings.bind (Brings.orFail (Brings.draw ?_ ⟨nofun,fun _ _ => .nothing hs⟩))
    intro read hread hpos
    refine ⟨?_,nofun⟩
    rintro _ ⟨⟩
    apply Brings.ite
    · intro hzero
      apply Brings.pure
      apply hdone
      by_contra hne
      have hlength : rest.length ≠ 0 := fun hnil => hne (length_eq_zero_iff.mp hnil)
      refine hpos ?_ hzero
      rw [sftpTransferChunkBytes]
      omega
    · intro hzero
      have hle : read ≤ rest.length := Nat.le_trans hread (Nat.min_le_right _ _)
      refine Brings.bind ((brings_writeChunk hs).mono ?_ fun _ => Begun.take)
      intro _ s₁ hs₁
      rw [chunk_length hle]
      refine (ih hs₁.node ?_ ?_).mono ?_ fun _ => Begun.chunk hs₁
      · rw [length_drop]
        omega
      · intro hrest
        rw [hrest,append_nil]
        exact .self hs₁.node
      · intro _ s₂ hs₂
        rw [← take_append_drop read rest]
        exact hs₁.chunk hs₂

/-- The loop of a download reads as much as is announced and there. -/
theorem brings_downloadChunks {n : ℕ} (hs : s.node part = some (.file content)) (hn : rest.length ≤ n) :
    Brings (downloadChunks part (content.length + rest.length) n rest content.length)
      (fun loaded s' => loaded = content.length + rest.length ∧ Puts s part (content ++ rest) s')
      (Begun s part content rest) s := by
  have hdone (hrest : rest = []) : content.length = content.length + rest.length ∧
      Puts s part (content ++ rest) s := by
    rw [hrest,append_nil]
    exact ⟨rfl,.self hs⟩
  induction n generalizing s content rest with
  | zero => exact Brings.pure (hdone (length_eq_zero_iff.mp (Nat.le_zero.mp hn)))
  | succ n ih =>
    apply Brings.ite
    · intro hlt
      refine Brings.bind (brings_touch ?_ (.nothing hs))
      refine Brings.bind (Brings.orFail (Brings.draw ?_ ⟨nofun,fun _ _ => .nothing hs⟩))
      intro read hread hpos
      refine ⟨?_,nofun⟩
      rintro _ ⟨⟩
      apply Brings.ite
      · exact fun _ => Brings.throw (.nothing hs)
      · intro hzero
        have hle : read ≤ rest.length := Nat.le_trans hread (Nat.min_le_right _ _)
        refine Brings.bind ((brings_writeChunk hs).mono ?_ fun _ => Begun.take)
        intro _ s₁ hs₁
        have htotal : content.length + rest.length =
            (content ++ rest.take read).length + (rest.drop read).length := by
          rw [← chunk_length hle,length_drop]
          omega
        rw [htotal,chunk_length hle]
        refine (ih hs₁.node ?_ ?_).mono ?_ fun _ => Begun.chunk hs₁
        · rw [length_drop]
          omega
        · intro hrest
          rw [hrest,append_nil]
          exact ⟨rfl,.self hs₁.node⟩
        · rintro _ s₂ ⟨rfl,hs₂⟩
          have hputs := hs₁.chunk hs₂
          rw [take_append_drop] at hputs
          exact ⟨rfl,hputs⟩
    · intro hge
      exact Brings.pure (hdone (length_eq_zero_iff.mp (by omega)))

/-! ## The part file -/

/-- What an interrupted transfer may leave of the part file: what was there, nothing, or a beginning of what it
becomes. -/
def Leaves (t : FileTree) (part : Path) (source : Bytes) (s : FileTree) : Prop :=
  ∃ node, s.node = Function.update t.node part node ∧ (node = t.node part ∨ node = none ∨
    t.node part ≠ some .directory ∧ ∃ k, node = some (.file ((resumed (t.content part) source).take k)))

theorem Leaves.refl (t : FileTree) (part : Path) (source : Bytes) : Leaves t part source t :=
  ⟨t.node part,(update_eq_self ..).symm,.inl rfl⟩

theorem Leaves.gone (h : s.node = Function.update t.node part none) : Leaves t part source s :=
  ⟨none,h,.inr (.inl rfl)⟩

/-- The part file is as it was, or it was too long and is gone. -/
def Cleared (t : FileTree) (part : Path) (totalBytes : ℕ) (s : FileTree) : Prop :=
  s.node = t.node ∨ totalBytes < (t.content part).length ∧ s.node = Function.update t.node part none

theorem Cleared.leaves (h : Cleared t part source.length s) : Leaves t part source s := by
  rcases h with heq | ⟨-,hgone⟩
  · rw [Leaves,heq]
    exact Leaves.refl t part source
  · exact Leaves.gone hgone

theorem content_congr (h : s.node = t.node) (p : Path) : s.content p = t.content p := by
  rw [FileTree.content,FileTree.content,h]

theorem content_of_none {p : Path} (h : t.node p = none) : t.content p = [] := by
  rw [FileTree.content,h]

theorem reportedLength_content {node : Node} (h : t.node part = some node) (hne : node ≠ .directory) :
    reportedLength node = (t.content part).length := by
  cases node with
  | file content => rw [FileTree.content_of_file h,reportedLength]
  | directory => exact absurd rfl hne

theorem brings_existingPartBytes {Q : ℕ → FileTree → Prop}
    (hQ : ∀ n, (t.node part ≠ some .directory → n = (t.content part).length) → Q n t) (hE : E t) :
    Brings (existingPartBytes error part) Q E t := by
  refine Brings.bind (Brings.look ?_ (Brings.throw hE))
  rw [FileTree.read]
  cases hnode : t.node part with
  | none => exact Brings.pure (hQ 0 fun _ => by rw [content_of_none hnode,length_nil])
  | some node => exact Brings.pure (hQ _ fun hne => reportedLength_content hnode fun heq => hne (by rw [hnode,heq]))

theorem openFile_directory {truncate : Bool} (h : s.node part = some .directory) :
    s.openFile part truncate ≠ .ok s' := by
  intro hopen
  rw [FileTree.openFile] at hopen
  exact (FileTree.writeFile_ok hopen).2 h

/-- The part file that is opened holds the bytes that are kept. -/
theorem openFile_cleared {existing : ℕ}
    (hexisting : t.node part ≠ some .directory → existing = (t.content part).length)
    (hs : Cleared t part source.length s)
    (h : s.openFile part (resumeOffsetForPartial existing source.length = 0) = .ok s') :
    t.node part ≠ some .directory ∧
      Puts t part (keptBytes (t.content part) source.length) s' := by
  have hne : t.node part ≠ some .directory := by
    intro hdirectory
    rcases hs with heq | ⟨hlong,-⟩
    · exact openFile_directory (by rw [heq,hdirectory]) h
    · rw [FileTree.content,hdirectory] at hlong
      cases hlong
  refine ⟨hne,?_⟩
  rw [FileTree.openFile] at h
  obtain ⟨hnode,-⟩ := FileTree.writeFile_ok h
  rw [hexisting hne,← keptBytes_length] at hnode
  rcases hs with heq | ⟨hlong,hgone⟩
  · have hkept : (if decide ((keptBytes (t.content part) source.length).length = 0) = true then []
        else s.content part) = keptBytes (t.content part) source.length := by
      by_cases hzero : (keptBytes (t.content part) source.length).length = 0
      · rw [if_pos (decide_eq_true hzero),length_eq_zero_iff.mp hzero]
      · rw [if_neg (by simpa using hzero),content_congr heq,keptBytes]
        by_cases hle : (t.content part).length ≤ source.length
        · rw [if_pos hle]
        · rw [keptBytes,if_neg hle] at hzero
          exact absurd rfl hzero
    rw [Puts,hnode,hkept,heq]
  · have hkept : keptBytes (t.content part) source.length = [] := if_neg (Nat.not_le_of_lt hlong)
    rw [Puts,hnode,hkept,hgone,update_idem,if_pos (by simp)]

/-- From the opened part file on, the chunks make it what it becomes. -/
theorem leaves_chunks (hne : t.node part ≠ some .directory)
    (h₁ : Puts t part (keptBytes (t.content part) source.length) s₁)
    (h₂ : Begun s₁ part (keptBytes (t.content part) source.length) (source.drop
      (keptBytes (t.content part) source.length).length) s₂) :
    Leaves t part source s₂ := by
  obtain ⟨k,hk⟩ := h₂
  refine ⟨_,h₁.trans hk,.inr (.inr ⟨hne,(keptBytes (t.content part) source.length).length + k,?_⟩)⟩
  rw [resumed,take_length_add_append]

theorem leaves_resumed (hne : t.node part ≠ some .directory) (h : Puts t part (resumed (t.content part) source) s) :
    Leaves t part source s :=
  ⟨_,h,.inr (.inr ⟨hne,_,by rw [take_length]⟩)⟩

/-- The part file holds the source behind the bytes that were kept. -/
theorem brings_fillRemotePart :
    Brings (fillRemotePart source part source.length)
      (fun _ s => Puts t part (resumed (t.content part) source) s)
      (Leaves t part source) t := by
  refine Brings.bind (brings_existingPartBytes (fun existing hexisting => ?_) (Leaves.refl t part source))
  have hcleared : Brings (runIf (source.length < existing)
      (attemptChange (·.removeFile part) (fun _ t => t) >>= ignoreSftpNotFound))
      (fun _ s => Cleared t part source.length s) (Leaves t part source) t := by
    apply Brings.runIf
    · intro hlong
      have hcontent {s : FileTree} (hs : t.removeFile part = .ok s) : source.length < (t.content part).length := by
        obtain ⟨-,content,hfile⟩ := FileTree.removeFile_ok hs
        rw [← hexisting (by rw [hfile]; exact nofun)]
        exact hlong
      refine Brings.bind (Brings.perform ?_ ?_ ?_ ?_)
      · intro s hs
        have hgone := (FileTree.removeFile_ok hs).1
        exact ⟨Brings.pure (.inr ⟨hcontent hs,hgone⟩),Brings.throw (Leaves.gone hgone)⟩
      · intro d _
        cases d with
        | missing => exact Brings.pure (.inl rfl)
        | other => exact Brings.throw (Leaves.refl t part source)
      · exact Brings.throw (Leaves.refl t part source)
      · exact fun _ => Brings.throw (Leaves.refl t part source)
    · exact fun _ => .inl rfl
  refine Brings.bind (hcleared.mono (fun _ s hs => ?_) fun _ h => h)
  refine Brings.bind (brings_touch ?_ hs.leaves)
  refine Brings.bind (brings_seek ?_ hs.leaves)
  refine Brings.bind (Brings.performOrFail (fun s₁ hopen => ?_) hs.leaves fun _ => hs.leaves)
  obtain ⟨hne,hs₁⟩ := openFile_cleared hexisting hs hopen
  have hleaves : Leaves t part source s₁ := leaves_chunks hne hs₁ (.nothing hs₁.node)
  rw [hexisting hne,← keptBytes_length]
  refine ⟨Brings.bind (brings_seek ?_ hleaves),hleaves⟩
  refine Brings.bind ((brings_uploadChunks hs₁.node (Nat.le_refl _)).mono ?_ fun _ => leaves_chunks hne hs₁)
  intro _ s₂ hs₂
  exact brings_touch (hs₁.trans hs₂) (leaves_resumed hne (hs₁.trans hs₂))

theorem brings_fillLocalPart :
    Brings (fillLocalPart source part source.length)
      (fun _ s => Puts t part (resumed (t.content part) source) s)
      (Leaves t part source) t := by
  refine Brings.bind (brings_existingPartBytes (fun existing hexisting => ?_) (Leaves.refl t part source))
  have hcleared : Brings (runIf (source.length < existing)
      (attemptChange (·.removeFile part) (fun _ t => t) >>= fun _ => pure ()))
      (fun _ s => Cleared t part source.length s) (Leaves t part source) t := by
    apply Brings.runIf
    · intro hlong
      have hgone {s : FileTree} (hs : t.removeFile part = .ok s) : Cleared t part source.length s := by
        obtain ⟨hnode,content,hfile⟩ := FileTree.removeFile_ok hs
        rw [hexisting (by rw [hfile]; exact nofun)] at hlong
        exact .inr ⟨hlong,hnode⟩
      refine Brings.bind (Brings.perform (fun s hs => ?_) (fun _ _ => ?_) ?_ fun _ => ?_)
      · exact ⟨Brings.pure (hgone hs),Brings.pure (hgone hs)⟩
      all_goals exact Brings.pure (.inl rfl)
    · exact fun _ => .inl rfl
  refine Brings.bind (hcleared.mono (fun _ s hs => ?_) fun _ h => h)
  refine Brings.bind (brings_touch ?_ hs.leaves)
  refine Brings.bind (brings_seek ?_ hs.leaves)
  refine Brings.bind (Brings.performOrFail (fun s₁ hopen => ?_) hs.leaves fun _ => hs.leaves)
  obtain ⟨hne,hs₁⟩ := openFile_cleared hexisting hs hopen
  have hleaves : Leaves t part source s₁ := leaves_chunks hne hs₁ (.nothing hs₁.node)
  rw [hexisting hne,← keptBytes_length]
  refine ⟨Brings.bind (brings_seek ?_ hleaves),hleaves⟩
  have hlength : source.length = (keptBytes (t.content part) source.length).length +
      (source.drop (keptBytes (t.content part) source.length).length).length := by
    have hle : (keptBytes (t.content part) source.length).length ≤ source.length := by
      rw [keptBytes]
      split_ifs with hle
      · exact hle
      · exact Nat.zero_le _
    rw [length_drop]
    omega
  have hrest : (source.drop (keptBytes (t.content part) source.length).length).length ≤
      source.length - (keptBytes (t.content part) source.length).length := by rw [length_drop]
  have hchunks := brings_downloadChunks hs₁.node hrest
  rw [← hlength] at hchunks
  refine Brings.bind (hchunks.mono ?_ fun _ => leaves_chunks hne hs₁)
  rintro loaded s₂ ⟨rfl,hs₂⟩
  rw [if_neg (by simp)]
  exact brings_touch (hs₁.trans hs₂) (leaves_resumed hne (hs₁.trans hs₂))

/-! ## The final file -/

/-- The final file is replaced in steps: it goes, then the part file comes. -/
def Replaces (t : FileTree) (part final : Path) (content : Bytes) (s : FileTree) : Prop :=
  s.node = Function.update (Function.update t.node part none) final (some (.file content))

def Stays (t : FileTree) (final : Path) (s : FileTree) : Prop :=
  s.node = t.node ∨ s.node = Function.update t.node final none

theorem Stays.keeps (h : Stays t final s) (hne : part ≠ final) : s.node part = t.node part := by
  rcases h with heq | hgone
  · rw [heq]
  · rw [hgone,update_of_ne hne]

theorem replaces_of_gone (hgone : Stays t final s) (hs' : Replaces s part final content s') :
    Replaces t part final content s' := by
  rw [Replaces] at hs' ⊢
  rcases hgone with heq | hgone
  · rw [hs',heq]
  rw [hs',hgone]
  funext r
  by_cases hfinal : r = final
  · rw [hfinal,update_self,update_self]
  by_cases hpart : r = part
  · rw [update_of_ne hfinal,update_of_ne hfinal,hpart,update_self,update_self]
  · simp only [update_of_ne hfinal,update_of_ne hpart]

theorem brings_replaceRemote (hpart : t.node part = some (.file content)) (hne : part ≠ final) :
    Brings (replaceRemote part final) (fun _ s => Replaces t part final content s)
      (fun s => Stays t final s ∨ Replaces t part final content s) t := by
  have hrename {s : FileTree} (hs : Stays t final s) : Brings (change (uploadFailed "远程临时文件重命名失败。")
      (·.rename part final)) (fun _ s => Replaces t part final content s)
      (fun s => Stays t final s ∨ Replaces t part final content s) s := by
    have hs' := (hs.keeps hne).trans hpart
    refine Brings.performOrFail (fun s' hrename => ?_) (.inl hs) fun _ => .inl hs
    obtain ⟨hnode,hmovable⟩ := FileTree.rename_ok hrename
    rw [FileTree.movedNode_file hs' hmovable] at hnode
    exact ⟨replaces_of_gone hs hnode,.inr (replaces_of_gone hs hnode)⟩
  refine Brings.bind (Brings.perform ?_ ?_ ?_ ?_)
  · intro s hs
    have hgone : Stays t final s := .inr (FileTree.removeFile_ok hs).1
    exact ⟨Brings.bind (Brings.pure (hrename hgone)),Brings.bind (Brings.throw (.inl hgone))⟩
  · intro d _
    cases d with
    | missing => exact Brings.bind (Brings.pure (hrename (.inl rfl)))
    | other => exact Brings.bind (Brings.throw (.inl (.inl rfl)))
  · exact Brings.bind (Brings.throw (.inl (.inl rfl)))
  · exact fun _ => Brings.bind (Brings.throw (.inl (.inl rfl)))

theorem brings_replaceLocal (hpart : t.node part = some (.file content)) (hne : part ≠ final) :
    Brings (replaceLocal part final) (fun _ s => Replaces t part final content s)
      (fun s => Stays t final s ∨ Replaces t part final content s) t := by
  have hrename {s : FileTree} (hs : Stays t final s) : Brings (change (writeFailed "本地临时文件重命名失败。")
      (·.replaceFile part final)) (fun _ s => Replaces t part final content s)
      (fun s => Stays t final s ∨ Replaces t part final content s) s := by
    have hs' := (hs.keeps hne).trans hpart
    refine Brings.performOrFail (fun s' hreplace => ?_) (.inl hs) fun _ => .inl hs
    have hnode := FileTree.replaceFile_ok hs' hne hreplace
    exact ⟨replaces_of_gone hs hnode,.inr (replaces_of_gone hs hnode)⟩
  have hremove : Brings (attemptChange (·.removeFile final) (fun _ t => t) >>= fun _ => pure ())
      (fun _ s => Stays t final s) (fun s => Stays t final s ∨ Replaces t part final content s) t := by
    refine Brings.bind (Brings.perform (fun s hs => ?_) (fun _ _ => ?_) ?_ fun _ => ?_)
    · have hgone : Stays t final s := .inr (FileTree.removeFile_ok hs).1
      exact ⟨Brings.pure hgone,Brings.pure hgone⟩
    all_goals exact Brings.pure (.inl rfl)
  have hboth (found : Except FileError Bool) : Brings (runIf (found.toOption.getD false = true)
      (attemptChange (·.removeFile final) (fun _ t => t) >>= fun _ => pure ()) >>= fun _ =>
      change (writeFailed "本地临时文件重命名失败。") (·.replaceFile part final))
      (fun _ s => Replaces t part final content s) (fun s => Stays t final s ∨ Replaces t part final content s) t := by
    refine Brings.bind (Brings.runIf (fun _ => ?_) fun _ => hrename (.inl rfl))
    exact hremove.mono (fun _ _ hs => hrename hs) fun _ h => h
  exact Brings.bind (Brings.look (hboth _) (hboth _))

/-! ## Transfers -/

/-- A transfer that fails leaves the part file so that it may be resumed, and the final file untouched, gone or
replaced. -/
def Interrupted (t : FileTree) (part final : Path) (source : Bytes) (s : FileTree) : Prop :=
  Leaves t part source s ∨ ∃ filled : FileTree,
    filled.node = Function.update t.node part (some (.file (resumed (t.content part) source))) ∧
      (Stays filled final s ∨ Replaces filled part final (resumed (t.content part) source) s)

def Transferred (t : FileTree) (part final : Path) (source : Bytes) (s : FileTree) : Prop :=
  Replaces t part final (resumed (t.content part) source) s

theorem replaces_filled {node : Option Node} (h : s.node = Function.update t.node part node)
    (hs' : Replaces s part final content s') : Replaces t part final content s' := by
  rw [Replaces] at hs' ⊢
  rw [hs',h,update_idem]

theorem append_part_ne (name : String) : name ++ ".mxpart" ≠ name := by
  intro heq
  have hlength := congrArg String.length heq
  rw [String.length_append,show ".mxpart".length = 7 from rfl] at hlength
  omega

theorem remoteTransferPartPath_ne (home : Path) (path : String) :
    locate home (remoteTransferPartPath path) ≠ locate home path := by
  obtain ⟨p,last,hpart,hpath⟩ := locate_append_suffix home path (show 3 ≤ ".mxpart".length by decide) (by decide)
  rw [remoteTransferPartPath,hpart]
  intro heq
  rw [← heq] at hpath
  have hlength : (p ++ [last ++ ".mxpart"]).length = p.length + 1 := length_append
  rcases hpath with h | h | h
  · rw [h] at hlength
    omega
  · rw [h,length_dropLast] at hlength
    omega
  · exact append_part_ne last (singleton_inj.mp (append_cancel_left h))

theorem localDownloadPartPath_concat (path : Path) (name : String) :
    localDownloadPartPath (path ++ [name]) = path ++ [name ++ ".mxpart"] := by
  rw [localDownloadPartPath,dropLast_concat,getLastD_concat]

theorem localDownloadPartPath_ne (path : Path) : localDownloadPartPath path ≠ path := by
  cases path using List.reverseRecOn with
  | nil => exact nofun
  | append_singleton path name =>
    rw [localDownloadPartPath_concat]
    intro heq
    exact append_part_ne name (singleton_inj.mp (append_cancel_left heq))

theorem brings_uploadSftpFile (home : Path) (path : String) :
    Brings (uploadSftpFile home source path source.length)
      (fun _ s => Transferred t (locate home (remoteTransferPartPath path)) (locate home path) source s)
      (fun s => Interrupted t (locate home (remoteTransferPartPath path)) (locate home path) source s) t := by
  refine Brings.bind (brings_fillRemotePart.mono (fun _ filled hfilled => ?_) fun _ h => .inl h)
  refine (brings_replaceRemote hfilled.node (remoteTransferPartPath_ne home path)).mono (fun _ s hs => ?_) fun s hs =>
    ?_
  · exact replaces_filled hfilled hs
  · exact .inr ⟨filled,hfilled,hs⟩

/-- The directories that are made on the way change neither the part file nor the final one. -/
theorem GrowsTo.away {t' : FileTree} {p r : Path} (h : t.GrowsTo t' p) (hr : p.length < r.length) :
    t'.node r = t.node r := by
  rcases h r with heq | ⟨-,-,hunder⟩
  · exact heq
  · exact absurd hunder.length_le (Nat.not_le_of_lt hr)

theorem brings_createLocalDirectories (directory : Path) :
    Brings (createLocalDirectories directory) (fun _ s => t.GrowsTo s directory) (fun s => t.GrowsTo s directory) t :=
      by
  refine Brings.performOrFail (fun s hs => ?_) (.refl t _) fun n => ?_
  · exact ⟨FileTree.createAll_ok hs,FileTree.createAll_ok hs⟩
  · cases hs : t.createAll (directory.take n) with
    | error _ => exact FileTree.GrowsTo.refl t _
    | ok s => exact (FileTree.createAll_ok hs).mono ( take_prefix n directory)

theorem brings_downloadSftpFile (path : Path) :
    Brings (downloadSftpFile source path source.length)
      (fun _ s => ∃ t' : FileTree, t.GrowsTo t' path.dropLast ∧
        Transferred t' (localDownloadPartPath path) path source s)
      (fun s => ∃ t' : FileTree, t.GrowsTo t' path.dropLast ∧
        Interrupted t' (localDownloadPartPath path) path source s) t := by
  have htransfer {t' : FileTree} (ht' : t.GrowsTo t' path.dropLast) :
      Brings (fillLocalPart source (localDownloadPartPath path) source.length >>= fun _ =>
        replaceLocal (localDownloadPartPath path) path)
        (fun _ s => ∃ t' : FileTree, t.GrowsTo t' path.dropLast ∧
          Transferred t' (localDownloadPartPath path) path source s)
        (fun s => ∃ t' : FileTree, t.GrowsTo t' path.dropLast ∧
          Interrupted t' (localDownloadPartPath path) path source s) t' := by
    refine Brings.bind (brings_fillLocalPart.mono (fun _ filled hfilled => ?_) fun _ h => ⟨t',ht',.inl h⟩)
    refine (brings_replaceLocal hfilled.node (localDownloadPartPath_ne path)).mono (fun _ s hs => ?_) fun s hs => ?_
    · exact ⟨t',ht',replaces_filled hfilled hs⟩
    · exact ⟨t',ht',.inr ⟨filled,hfilled,hs⟩⟩
  refine Brings.bind (Brings.runIf (fun _ => ?_) fun _ => htransfer (.refl t _))
  refine (brings_createLocalDirectories path.dropLast).mono (fun _ t' ht' => htransfer ht') fun t' ht' => ?_
  exact ⟨t',ht',.inl (Leaves.refl t' _ source)⟩

/-! ## Histories -/

namespace Direction

theorem part_ne_final (d : Direction) : d.part ≠ d.final := by
  cases d with
  | upload home path => exact remoteTransferPartPath_ne home path
  | download path => exact localDownloadPartPath_ne path

/-- What a transfer does to the two files, for both directions. -/
theorem brings (d : Direction) (t : FileTree) (source : Bytes) :
    Brings (d.transfer source)
      (fun _ s => s.node d.part = none ∧ s.node d.final = some (.file (resumed (t.content d.part) source)))
      (fun s => s.node d.part = t.node d.part ∨ s.node d.part = none ∨
        ∃ k, s.node d.part = some (.file ((resumed (t.content d.part) source).take k))) t := by
  have hdone {t s : FileTree} (hs : Transferred t d.part d.final source s) :
      s.node d.part = none ∧ s.node d.final = some (.file (resumed (t.content d.part) source)) := by
    rw [hs]
    exact ⟨by rw [update_of_ne d.part_ne_final,update_self],update_self ..⟩
  have hinterrupted {t s : FileTree} (hs : Interrupted t d.part d.final source s) :
      s.node d.part = t.node d.part ∨ s.node d.part = none ∨
        ∃ k, s.node d.part = some (.file ((resumed (t.content d.part) source).take k)) := by
    rcases hs with ⟨node,hnode,hleft⟩ | ⟨filled,hfilled,hstays | hreplaces⟩
    · rw [hnode,update_self]
      exact hleft.imp_right (Or.imp_right fun h => h.2)
    · rw [hstays.keeps d.part_ne_final,hfilled,update_self]
      exact .inr (.inr ⟨_,by rw [take_length]⟩)
    · rw [hreplaces]
      exact .inr (.inl (by rw [update_of_ne d.part_ne_final,update_self]))
  cases d with
  | upload home path => exact (brings_uploadSftpFile home path).mono (fun _ _ => hdone) fun _ => hinterrupted
  | download path =>
    have hsame {t' : FileTree} (ht' : t.GrowsTo t' path.dropLast) :
        t'.node (localDownloadPartPath path) = t.node (localDownloadPartPath path) := by
      apply GrowsTo.away ht'
      rw [localDownloadPartPath,length_append]
      exact Nat.lt_succ_self _
    have hcontent {t' : FileTree} (ht' : t.GrowsTo t' path.dropLast) :
        t'.content (localDownloadPartPath path) = t.content (localDownloadPartPath path) := by
      rw [FileTree.content,FileTree.content,hsame ht']
    refine (brings_downloadSftpFile path).mono ?_ ?_
    · rintro _ s ⟨t',ht',hs⟩
      have hdone' := hdone hs
      rwa [show t'.content (Direction.part (.download path)) = _ from hcontent ht'] at hdone'
    · rintro s ⟨t',ht',hs⟩
      have hleft := hinterrupted hs
      rwa [show t'.content (Direction.part (.download path)) = _ from hcontent ht',
        show t'.node (Direction.part (.download path)) = _ from hsame ht'] at hleft

end Direction

theorem resumed_of_resumable (h : Resumable t part source) : resumed (t.content part) source = source := by
  apply resumed_of_prefix
  rw [FileTree.content]
  split
  · exact h _ ‹_›
  · exact fun _ => nil_prefix

/-- A call leaves a part file from which the same content may be resumed. -/
theorem resumable_after (d : Direction) (events : List Event) (h : Resumable t d.part source) :
    Resumable (after (d.transfer source) ⟨t,events⟩).store d.part source := by
  have hgone {s : FileTree} (hs : s.node d.part = none) : Resumable s d.part source := by
    intro old hold
    rw [hs] at hold
    cases hold
  refine Leads.after (P := fun w => Resumable w.store d.part source) ((d.brings t source events).mono ?_ ?_)
  · exact fun _ w hw => hgone hw.1
  · rintro w (hsame | hnone | ⟨k,hbeginning⟩)
    · intro old hold
      exact h old (hsame ▸ hold)
    · exact hgone hnone
    · rintro old hold -
      rw [hbeginning,resumed_of_resumable h] at hold
      cases hold
      exact take_prefix k source

theorem resumable_runCalls (d : Direction) {calls : List Call} (hcalls : ∀ call ∈ calls, call.source = source)
    (h : Resumable t d.part source) : Resumable (runCalls d t calls) d.part source := by
  induction calls generalizing t with
  | nil => exact h
  | cons call calls ih =>
    obtain ⟨hcall,hrest⟩ := forall_mem_cons.mp hcalls
    rw [runCalls,hcall]
    exact ih hrest (resumable_after d call.events h)

/-- An empty tree. -/
def emptyTree : FileTree where
  node p := if p = [] then some .directory else none
  paths := [[]]
  covers p hp := by
    by_cases hnil : p = []
    · rw [hnil]
      exact mem_singleton_self _
    · rw [if_neg hnil] at hp
      exact absurd rfl hp
  root := if_pos rfl
  closed p name h := by
    rw [if_neg (by simp)] at h
    exact absurd rfl h

theorem uploadSftpFile_notes (source : Bytes) (totalBytes : ℕ) : uploadSftpFile [] source "/notes" totalBytes =
    fillRemotePart source ["notes.mxpart"] totalBytes >>= fun _ => replaceRemote ["notes.mxpart"] ["notes"] := by
  have hpart : locate [] (remoteTransferPartPath "/notes") = ["notes.mxpart"] := by decide
  have hfinal : locate [] "/notes" = ["notes"] := by decide
  rw [uploadSftpFile,hpart,hfinal]

/-- An upload that breaks off after the first byte. -/
def brokenOff (source : Bytes) : Call := ⟨source,[.goes none,.goes none,.goes none,.goes none,.goes none,.failsMidway
    1]⟩

/-- The next one goes through. -/
theorem upload_after_brokenOff (source other : Bytes) (h : returns (fillRemotePart other ["notes.mxpart"] other.length
    >>=
      fun _ => replaceRemote ["notes.mxpart"] ["notes"])
    ⟨(after (fillRemotePart source ["notes.mxpart"] source.length >>= fun _ => replaceRemote ["notes.mxpart"] ["notes"])
      ⟨emptyTree,(brokenOff source).events⟩).store,[]⟩ = true) :
    returns (uploadSftpFile [] other "/notes" other.length)
      ⟨runCalls (.upload [] "/notes") emptyTree [brokenOff source],[]⟩ = true := by
  simpa only [runCalls,Direction.transfer,uploadSftpFile_notes,brokenOff] using h

end Mxterm.SftpTransfers
