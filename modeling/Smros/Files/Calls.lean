import Smros.Files.Opens

/-!
# The calls as chains

Each call other than those of a fork runs along a chain of steps.  Only an open
and the calls that use the cursor of a file move an offset.
-/

namespace Smros.Files
open Lib Program LinuxOpenDescriptions Option Files.System CompatObjectTable

/-- A call has given every new object its place. -/
def Settled {Value : Type} (_ : Value) (after : Stage) : Prop := after.pending = []

variable {Value : Type} {above : Bool} {sys : System} {pid fd flags : Nat}
  (hwell : WellFormed ⟨sys, []⟩)

/-! ## New objects -/

section
variable {allowed size : Nat}
theorem leads_sysCreate {objectType} (hwell : WellFormed ⟨sys, []⟩)
  (kind : objectType ≠ .sharedMemory) :
  Leads above (sysCreate pid objectType flags allowed) ⟨sys, []⟩ Settled := by
  unfold sysCreate
  refine leads_ite (fun _ => ?_) fun _ => leads_throw
  refine .bind hwell (leads_createObject hwell) ?_
  rintro handle mid hmid ⟨compat, rfl, -, htype⟩
  refine .mono (leads_allocFdWithFlags hmid htype kind) ?_
  rintro answer after ⟨pend, -⟩
  exact pend

variable {handle : Nat} {pend : List Nat}
/-- A new object of a process gets its description and its place in the list. -/
theorem registerObject_pending (objectType) (hwell : WellFormed ⟨sys, handle :: pend⟩) :
  sys.registerProcessObject pid handle objectType = (true, listed sys pid handle objectType) := by
  have created : (described sys handle objectType 0).files.table.openDescription
    sys.files.table.nextOpenDescriptionId = some (Shaped.created sys.files handle objectType 0) :=
    openDesc_create_self hwell.shaped
  have acquire : (described sys handle objectType 0).files.acquireOpenDescription
    sys.files.table.nextOpenDescriptionId = some
      { (described sys handle objectType 0).files with
        table := (described sys handle objectType 0).files.table.openDescriptionMut
          sys.files.table.nextOpenDescriptionId addReference } := by
    unfold OpenFiles.acquireOpenDescription acquireOpenDescription
    rw [created]
    rfl
  unfold listed
  rw [acquireIgnored_of_open created]
  unfold registerProcessObject
  rw [show sys.files.createOpenDescription handle objectType 0 =
    (_, (described sys handle objectType 0).files) from rfl]
  dsimp only
  rw [acquire]
  rfl

theorem leads_sysMsgget (hwell : WellFormed ⟨sys, []⟩) :
  Leads above (sysMsgget pid) ⟨sys, []⟩ Settled := by
  unfold sysMsgget
  refine .bind hwell (leads_createObject hwell) ?_
  rintro handle mid hmid ⟨compat, rfl, -, -⟩
  refine leads_get_bind ?_
  rw [registerObject_pending .messageQueue hmid]
  refine .bind hmid (leads_set [] (.of_effect (.registered pid))) ?_
  rintro _ last - rfl
  exact leads_pure rfl

theorem leads_registerShared (hwell : WellFormed ⟨sys, [handle]⟩) :
  Leads above (registerShared pid handle size) ⟨sys, [handle]⟩ Settled := by
  unfold registerShared
  refine leads_get_bind ?_
  dsimp only
  cases register : sys.files.registerSharedMemory handle size with
  | none =>
    refine .bind hwell (leads_files_modify [] (.of_effect .abandoned)) ?_
    rintro _ last - rfl
    exact leads_throw
  | some registered =>
    obtain ⟨id, files⟩ := registered
    have shared : Effect above ⟨sys, [handle]⟩ ⟨_, []⟩ := .shared pid register
    have ready := hwell.setFiles (hwell.shaped.registerShared register)
    obtain ⟨rfl, -, rfl⟩ := registerSharedMemory_some register
    dsimp only
    rw [registerObject_pending .sharedMemory ready]
    refine .bind hwell (leads_set [] (.of_effect shared)) ?_
    rintro _ last - rfl
    exact leads_pure rfl

include hwell
theorem leads_sysShmget : Leads above (sysShmget pid size) ⟨sys, []⟩ Settled := by
  unfold sysShmget
  refine leads_ite (fun _ => leads_throw) fun _ => ?_
  refine .bind hwell (leads_createObject hwell) ?_
  rintro handle mid hmid ⟨compat, rfl, -, -⟩
  have property : (compat.setProperty handle size).handles = compat.handles :=
    handles_modifyObject fun _ => rfl
  refine .bind hmid (leads_files_modify [handle] (.of_effect (.queues property rfl))) ?_
  rintro _ sized hsized rfl
  exact leads_registerShared hsized

/-- The objects of a pipe, or none of them. -/
theorem chain_createPair (objectType) :
  (∃ next, sys.files.compat.createPair objectType = (none, next) ∧ Chain above ⟨sys, []⟩
    ⟨{ sys with files := { sys.files with compat := next } }, []⟩) ∨
  (∃ left right next, sys.files.compat.createPair objectType = (some (left, right), next) ∧
    next.objectType left = some objectType ∧ next.objectType right = some objectType ∧
    Chain above ⟨sys, []⟩
      ⟨{ sys with files := { sys.files with compat := next } }, [left, right]⟩) := by
  rcases createPair_cases hwell.shaped.live objectType with
    hnone | ⟨next, hnone, last, hnext, handles⟩ |
    ⟨alone, next, hsome, hfirst, hnext, handles, hsnd, later, both, hleft, hright⟩
  · exact .inl ⟨_, hnone, .refl _⟩
  · exact .inl ⟨next, hnone, .of_effect (.skipped last hnext handles)⟩
  refine .inr ⟨_, _, next, hsome, hleft, hright, ?_⟩
  have hone : Chain above ⟨sys, []⟩ ⟨{ sys with files := { sys.files with compat := alone } },
        [sys.files.compat.nextHandle]⟩ :=
    .of_effect (.created hfirst hnext handles)
  have htwo : Chain above ⟨{ sys with files := { sys.files with compat := alone } },
        [sys.files.compat.nextHandle]⟩
      ⟨{ sys with files := { sys.files with compat := next } },
        [alone.nextHandle, sys.files.compat.nextHandle]⟩ :=
    .of_effect (.created hsnd later both)
  exact (hone.trans htwo).trans (.of_effect (.reordered (List.Perm.swap _ _ _)))

variable {delivered : Bool}
theorem leads_sysPipe2 : Leads above (sysPipe2 pid flags delivered) ⟨sys, []⟩ Settled := by
  unfold sysPipe2
  refine leads_ite (fun _ => leads_throw) fun _ => ?_
  refine leads_get_bind ?_
  dsimp only
  rcases chain_createPair hwell .linuxPipe with
    ⟨next, hnone, chain⟩ | ⟨left, right, next, hsome, hleft, hright, chain⟩
  · rw [hnone]
    refine .bind hwell (leads_set [] chain) ?_
    rintro _ mid hmid rfl
    refine .bind hmid leads_orThrow ?_
    rintro found last - ⟨hfound, -⟩
    cases hfound
  · rw [hsome]
    refine .bind hwell (leads_set _ chain) ?_
    rintro _ mid hmid rfl
    refine .bind hmid leads_orThrow_some ?_
    rintro _ mid - ⟨rfl, rfl⟩
    refine .bind hmid (leads_allocFdWithFlags hmid hleft (by decide)) ?_
    rintro readFd ⟨reading, pend⟩ hreading ⟨hpend, opened⟩
    cases hpend
    have still : reading.files.compat.objectType right = some .linuxPipe := by
      rw [opened.compat]
      exact hright
    refine .bind hreading (leads_allocFdWithFlags hreading still (by decide)) ?_
    rintro writeFd ⟨writing, pend⟩ hwriting ⟨hpend, -⟩
    cases hpend
    refine leads_ite (fun _ => leads_pure rfl) fun _ => ?_
    have closed : Chain above ⟨writing, []⟩
      ⟨(closeLinuxFd (closeLinuxFd writing pid readFd).2 pid writeFd).2, []⟩ :=
      .trans (.of_effect (.closed pid readFd)) (.of_effect (.closed pid writeFd))
    refine .bind hwriting (leads_modify [] closed) ?_
    rintro _ last - rfl
    exact leads_throw

end

/-! ## Closing and duplicating -/

theorem leads_sysClose (hwell : WellFormed ⟨sys, []⟩) :
  Leads above (sysClose pid fd) ⟨sys, []⟩ Settled := by
  have chain : Chain above ⟨sys, []⟩ ⟨(closeLinuxFd sys pid fd).2, []⟩ :=
    .of_effect (.closed pid fd)
  unfold sysClose
  refine leads_get_bind ?_
  dsimp only
  refine .bind hwell (leads_set [] chain) ?_
  rintro _ last - rfl
  exact leads_ite (fun _ => leads_pure rfl) fun _ => leads_throw

open LinuxFdRecord (of)

theorem leads_sysDup (hwell : WellFormed ⟨sys, []⟩) :
  Leads above (sysDup pid fd) ⟨sys, []⟩ Settled := by
  unfold sysDup
  refine leads_get_bind (leads_orThrow_bind hwell fun rec hget => ?_)
  obtain ⟨entry, desc, hentry, hopen, rfl⟩ := getFd_entryOf hget
  obtain ⟨hmem, hid⟩ := (openDesc_iff hwell.shaped.indexed).mp hopen
  have hnamed : Named sys desc.id := hid ▸ named_of_entryOf hentry
  refine leads_allocating fun answer next halloc => ?_
  have halias : sys.allocFdForDescription pid desc.id false = some (answer, next) := by
    unfold allocFd allocFdWithFlags at halloc
    dsimp only [of] at halloc
    rw [descOfHandle_of_mem hwell.shaped hmem] at halloc
    exact halloc
  exact ⟨[], chain_allocFdFor (.inl hnamed) halias, rfl⟩

/-- A number that was closed stands for nothing. -/
theorem getFd_closed (sys pid fd) : (closeLinuxFd sys pid fd).2.getFd pid fd = none := by
  cases hget : sys.getFd pid fd with
  | none =>
    rw [closeFd_of_none hget]
    exact hget
  | some rec =>
    obtain ⟨res, entry, -, -, rfl, close⟩ := closeFd_of_getFd hget
    rw [close, getFd_eq]
    have hentry : (withoutEntry sys pid entry).entryOf pid entry.fd = none :=
      entryOf_withoutEntry_self
    change ((withoutEntry sys pid entry).entryOf pid entry.fd).bind _ = none
    rw [hentry]
    rfl

variable {id newFd minFd argument : Nat} {cloexec : Bool}
theorem installFd_some {next} (install : sys.installFd pid fd id cloexec = some next) :
  next = aliased sys pid ⟨fd, id, cloexec⟩ fun hint => hint := by
  obtain ⟨files, acquire, rfl⟩ := map_eq_some_iff.mp install
  unfold aliased acquireIgnored
  rw [acquire]
  rfl

theorem leads_sysDup3 (hwell : WellFormed ⟨sys, []⟩) :
  Leads above (sysDup3 pid fd newFd flags) ⟨sys, []⟩ Settled := by
  unfold sysDup3
  refine leads_ite (fun _ => leads_throw) fun hflags => ?_
  refine leads_get_bind (leads_orThrow_bind hwell fun rec hget => ?_)
  obtain ⟨entry, desc, hentry, hopen, rfl⟩ := getFd_entryOf hget
  obtain ⟨-, hid⟩ := (openDesc_iff hwell.shaped.indexed).mp hopen
  dsimp only
  refine .bind hwell (leads_set [] (.of_effect (.closed pid newFd))) ?_
  rintro _ closed hclosed rfl
  refine leads_orThrow_bind hclosed fun next install => ?_
  obtain rfl := installFd_some install
  have other : pid ≠ pid ∨ fd ≠ newFd := .inr fun same => hflags (.inl same)
  have still : (closeLinuxFd sys pid newFd).2.entryOf pid fd = some entry :=
    (entryOf_closed_ne other).trans hentry
  have hnamed : Named (closeLinuxFd sys pid newFd).2 desc.id := hid ▸ named_of_entryOf still
  refine .bind hclosed (leads_set [] (.of_effect
    (.duplicated pid (getFd_closed sys pid newFd) (.inl hnamed) fun _ => .inl fun _ => rfl))) ?_
  rintro _ last - rfl
  exact leads_pure rfl

theorem leads_sysDup2 (hwell : WellFormed ⟨sys, []⟩) :
  Leads above (sysDup2 pid fd newFd) ⟨sys, []⟩ Settled := by
  unfold sysDup2
  refine leads_ite (fun _ => ?_) fun _ => leads_sysDup3 hwell
  refine leads_get_bind ?_
  exact leads_ite (fun _ => leads_pure rfl) fun _ => leads_throw

theorem chain_setFdCloseOnExec {pend} (cloexec) :
  Chain above ⟨sys, pend⟩ ⟨sys.setFdCloseOnExec pid fd cloexec, pend⟩ := by
  refine .of_effect (.attributes pid (fun _ => rfl) (fun _ => ?_) (fun _ => rfl) fun _ => rfl)
  exact Counted.map_adjust fun _ => rfl

section
include hwell
theorem leads_fcntlDupfd (hfirst : above = false → ∀ number < minFd,
    max (sys.hint pid) compatFdStart ≤ number → number ∈ sys.usedFds pid) :
    Leads above (fcntlDupfd pid fd minFd cloexec) ⟨sys, []⟩ Settled := by
  unfold fcntlDupfd
  refine leads_get_bind (leads_orThrow_bind hwell fun rec hget => ?_)
  obtain ⟨entry, desc, hentry, hopen, rfl⟩ := getFd_entryOf hget
  obtain ⟨hmem, hid⟩ := (openDesc_iff hwell.shaped.indexed).mp hopen
  have hnamed : Named sys desc.id := hid ▸ named_of_entryOf hentry
  have halloc : Leads above (allocating fun sys => sys.allocFdFrom pid minFd desc.handle
        (of fd entry.closeOnExec desc).readable
        (of fd entry.closeOnExec desc).writable) ⟨sys, []⟩ Settled := by
    refine leads_allocating fun answer next halloc => ?_
    obtain ⟨found, free, rest⟩ := bind_eq_some_iff.mp halloc
    rw [descOfHandle_of_mem hwell.shaped hmem] at rest
    cases rest
    obtain ⟨hnew, -⟩ := freeFd_some free
    refine ⟨[], ?_, rfl⟩
    rw [pushFd_eq]
    exact .of_effect (.duplicated pid (getFd_of_free hnew) (.inl hnamed)
      fun hexact => placed_of_free free (hfirst hexact))
  refine Leads.bind hwell halloc ?_
  rintro duplicated ⟨mid, pend⟩ hmid hpend
  cases hpend
  refine leads_ite (fun _ => ?_) fun _ => leads_pure rfl
  refine Leads.bind hmid (leads_modify [] (chain_setFdCloseOnExec true)) ?_
  rintro _ last - rfl
  exact leads_pure rfl

theorem leads_fcntlSetfd : Leads above (fcntlSetfd pid fd argument) ⟨sys, []⟩ Settled := by
  unfold fcntlSetfd
  refine leads_get_bind ?_
  refine leads_ite (fun _ => leads_throw) fun _ => ?_
  refine leads_ite (fun _ => leads_throw) fun _ => ?_
  refine .bind hwell (leads_set [] (chain_setFdCloseOnExec _)) ?_
  rintro _ last - rfl
  exact leads_pure rfl

theorem leads_fcntlSetfl : Leads above (fcntlSetfl pid fd argument) ⟨sys, []⟩ Settled := by
  unfold fcntlSetfl
  refine leads_get_bind ?_
  refine leads_ite (fun _ => leads_throw) fun _ => ?_
  refine leads_ite (fun _ => leads_throw) fun _ => ?_
  refine leads_orThrow_bind hwell fun rec _ => ?_
  refine .bind hwell (leads_files_modify [] (.of_effect (.flags _ argument))) ?_
  rintro _ last - rfl
  exact leads_pure rfl

end

/-- Closing at an exec closes one number after the other. -/
theorem chain_closeOnExec : Chain above ⟨sys, []⟩ ⟨closeLinuxCloseOnExecFds sys pid, []⟩ := by
  unfold closeLinuxCloseOnExecFds
  generalize sys.closeOnExecFds pid = fds
  induction fds generalizing sys with
  | nil => exact .refl _
  | cons fd rest ih => exact .trans (.of_effect (.closed pid fd)) ih

/-! ## Reading and writing -/

variable {answer : Value}
section
variable {rec : LinuxFdRecord} {file : LinuxFxfsFileRecord} {bytes : List UInt8} {memory : Bool}
/-- What the queues of the objects hold is one step. -/
theorem leads_files_queues {compat} (hwell : WellFormed ⟨sys, []⟩)
  (same : compat.handles = sys.files.compat.handles ∧
    compat.nextHandle = sys.files.compat.nextHandle) :
  Leads above (onFiles do
    set { sys.files with compat := compat }
    pure answer) ⟨sys, []⟩ Settled := by
  refine .onFilesBind hwell (leads_files_set [] (.of_effect (.queues same.1 same.2))) ?_
  rintro _ last - rfl
  exact leads_files_pure rfl

theorem leads_appendCursor (hwell : WellFormed ⟨sys, []⟩) :
  Leads above (onFiles (appendCursor rec file)) ⟨sys, []⟩ Settled := by
  unfold appendCursor
  refine leads_files_get_bind ?_
  refine leads_files_ite (fun _ => ?_) fun _ => leads_files_pure rfl
  refine leads_files_orErrno_bind hwell fun attrs _ => ?_
  refine leads_files_orErrno_bind hwell fun cursor _ => ?_
  refine .onFilesBind hwell (leads_files_set [] (.of_effect (.seek rec.handle cursor))) ?_
  rintro _ last - rfl
  exact leads_files_pure rfl

/-- A cursor and the offset of its description move together. -/
theorem chain_place (handle id offset cursor fxfs) : Chain above ⟨sys, []⟩ ⟨{ sys with
        files := .setDescriptionOffset
          { sys.files.setCursor handle cursor with fxfs := fxfs } id offset }, []⟩ := by
  have seek : Chain above ⟨sys, []⟩ ⟨{ sys with files := sys.files.setCursor handle cursor }, []⟩ :=
    .of_effect (.seek handle cursor)
  have store : Chain above ⟨{ sys with files := sys.files.setCursor handle cursor }, []⟩
    ⟨{ sys with files := { sys.files.setCursor handle cursor with fxfs := fxfs } }, []⟩ :=
    .of_effect (.store fxfs)
  exact (seek.trans store).trans (.of_effect (.offset id offset))

include hwell
theorem leads_writeFileBytes :
  Leads above (onFiles (writeFileBytes rec file bytes memory)) ⟨sys, []⟩ Settled := by
  unfold writeFileBytes
  refine .onFilesBind hwell (leads_appendCursor hwell) ?_
  rintro cursor ⟨mid, pend⟩ hmid hpend
  cases hpend
  refine leads_files_get_bind (leads_files_orErrno_bind hmid fun ⟨moved, fxfs⟩ _ => ?_)
  refine .onFilesBind hmid (leads_files_set [] (chain_place _ _ _ moved fxfs)) ?_
  rintro _ last - rfl
  exact leads_files_pure rfl

theorem leads_writeRecord {socket} :
    Leads above (onFiles (writeRecord rec bytes socket memory)) ⟨sys, []⟩ Settled := by
  unfold writeRecord
  refine leads_files_get_bind ?_
  dsimp only
  split
  · exact leads_files_orErrno.mono fun _ _ post => by rw [post.2]; rfl
  · exact leads_writeFileBytes hwell
  · refine leads_files_orErrno_bind hwell fun ⟨written, compat⟩ write => ?_
    exact leads_files_queues hwell (writeBytes_ok write)

/-- A write to the serial port or through a descriptor. -/
theorem leads_fdWrite {socket} :
    Leads above (linuxFdWriteBytes pid fd bytes socket memory) ⟨sys, []⟩ Settled := by
  unfold linuxFdWriteBytes
  refine leads_ite (fun _ => ?_) fun _ => ?_
  · refine .bind hwell (leads_modify [] (.of_effect (.print _))) ?_
    rintro _ last - rfl
    exact leads_pure rfl
  · exact leads_get_bind (leads_orThrow_bind hwell fun rec _ => leads_writeRecord hwell)

variable {len whence offset : Nat} {socket : Option (Except ZxError (List UInt8))} {dispatch : Bool}
theorem leads_readRecord :
    Leads above (onFiles (readRecord rec len socket dispatch)) ⟨sys, []⟩ Settled := by
  unfold readRecord
  refine leads_files_get_bind ?_
  dsimp only
  split
  · exact leads_files_pure rfl
  · exact leads_files_pure rfl
  · exact leads_files_throw
  · refine leads_files_orErrno_bind hwell fun ⟨bytes, cursor⟩ _ => ?_
    refine .onFilesBind hwell (leads_files_set [] (chain_place _ _ _ cursor sys.files.fxfs)) ?_
    rintro _ last - rfl
    exact leads_files_pure rfl
  cases read : sys.files.compat.readBytes rec.handle len with
  | ok answer =>
    obtain ⟨bytes, compat⟩ := answer
    exact leads_files_queues hwell (readBytes_ok read)
  | error reason =>
    cases reason with
    | errShouldWait =>
      dsimp only
      refine leads_files_ite (fun _ => ?_) fun _ => leads_files_pure rfl
      exact leads_files_ite (fun _ => leads_files_throw) fun _ => leads_files_throw
    | errPeerClosed =>
      dsimp only
      exact leads_files_ite (fun _ => leads_files_pure rfl) fun _ => leads_files_throw
    | errAccessDenied => exact leads_files_throw
    | errNoMemory => exact leads_files_throw

theorem leads_fdRead :
    Leads above (linuxFdReadBytes pid fd len socket dispatch) ⟨sys, []⟩ Settled := by
  unfold linuxFdReadBytes
  exact leads_get_bind (leads_orThrow_bind hwell fun rec _ => leads_readRecord hwell)

theorem leads_rollbackRead :
  Leads above (linuxFdRollbackReadBytes pid fd bytes) ⟨sys, []⟩ Settled := by
  unfold linuxFdRollbackReadBytes
  refine leads_get_bind (leads_orThrow_bind hwell fun rec _ => ?_)
  dsimp only
  cases hfile : sys.files.linuxFxfsFile rec.handle with
  | some file =>
    dsimp only
    refine leads_ite (fun _ => leads_throw) fun _ => ?_
    refine leads_orErrno_bind hwell fun cursor _ => ?_
    refine .bind hwell (leads_files_modify [] (.of_effect (.seek rec.handle cursor))) ?_
    rintro _ last - rfl
    exact leads_pure rfl
  | none =>
    dsimp only
    refine leads_orThrow_bind hwell fun compat restore => ?_
    obtain ⟨handles, hnext⟩ := restoreReadBytes_some restore
    refine .bind hwell (leads_files_modify [] (.of_effect (.queues handles hnext))) ?_
    rintro _ last - rfl
    exact leads_pure rfl

theorem leads_sysLseek {offset} : Leads above (sysLseek pid fd offset whence) ⟨sys, []⟩ Settled := by
  unfold sysLseek
  refine leads_ite (fun _ => leads_throw) fun _ => ?_
  refine leads_get_bind (leads_orThrow_bind hwell fun rec _ => ?_)
  unfold seekRecord
  refine leads_files_get_bind ?_
  dsimp only
  cases hfile : sys.files.linuxFxfsFile rec.handle with
  | none => exact leads_files_pure rfl
  | some file =>
    refine leads_files_orErrno_bind hwell fun base _ => ?_
    refine .onFilesBind hwell leads_files_orThrow ?_
    rintro target mid - ⟨-, rfl⟩
    refine leads_files_orErrno_bind hwell fun cursor _ => ?_
    refine .onFilesBind hwell (leads_files_set [] (chain_place _ _ _ cursor sys.files.fxfs)) ?_
    rintro _ last - rfl
    exact leads_files_pure rfl

/-- Positioned reads and writes work on a copy of the cursor. -/
theorem leads_sysPread :
    Leads above (sysPread pid fd len offset socket dispatch) ⟨sys, []⟩ Settled := by
  unfold sysPread
  refine leads_get_bind (leads_orThrow_bind hwell fun rec _ => ?_)
  dsimp only
  cases hfile : sys.files.linuxFxfsFile rec.handle with
  | some file =>
    dsimp only
    refine leads_orErrno_bind hwell fun cursor _ => ?_
    refine leads_orErrno_bind hwell fun answer _ => ?_
    exact leads_pure rfl
  | none => exact leads_fdRead hwell

theorem leads_onFxfs_set {fxfs : FxfsState} : Leads above (do
      onFxfs (set fxfs)
      pure answer) ⟨sys, []⟩ Settled := by
  refine .bind hwell leads_onFxfs ?_
  rintro _ last - ⟨store, -, rfl⟩
  exact leads_pure rfl

theorem leads_sysPwrite {socket} :
    Leads above (sysPwrite pid fd bytes offset socket memory) ⟨sys, []⟩ Settled := by
  unfold sysPwrite
  refine leads_get_bind (leads_orThrow_bind hwell fun rec _ => ?_)
  dsimp only
  cases hfile : sys.files.linuxFxfsFile rec.handle with
  | some file =>
    dsimp only
    refine leads_orErrno_bind hwell fun cursor _ => ?_
    refine leads_orErrno_bind hwell fun answer _ => ?_
    exact leads_onFxfs_set hwell
  | none => exact leads_fdWrite hwell

theorem leads_sysFtruncate : Leads above (sysFtruncate pid fd len memory) ⟨sys, []⟩ Settled := by
  have property : ∀ handle, (sys.files.compat.setProperty handle len).handles =
    sys.files.compat.handles := fun _ =>
    handles_modifyObject fun _ => rfl
  unfold sysFtruncate
  refine leads_get_bind (leads_orThrow_bind hwell fun rec _ => ?_)
  dsimp only
  refine leads_ite (fun _ => ?_) fun _ => ?_
  · split
    · exact leads_throw
    · exact leads_throw
  split
  · exact leads_throw
  have queues : Leads above (if (sys.files.compat.find rec.handle).isSome then do
          onFiles (modify fun files =>
            { files with compat := files.compat.setProperty rec.handle len })
          pure 0
        else throw (.errno .enodev) : SystemM Nat) ⟨sys, []⟩ Settled := by
    split
    · refine .bind hwell (leads_files_modify [] (.of_effect (.queues (property rec.handle) rfl))) ?_
      rintro _ last - rfl
      exact leads_pure rfl
    · exact leads_throw
  cases rec.objectType with
  | linuxFile =>
    dsimp only
    refine leads_orThrow_bind hwell fun file _ => ?_
    refine leads_orErrno_bind hwell fun fxfs _ => ?_
    exact leads_onFxfs_set hwell
  | memFd => exact queues
  | sharedMemory => exact queues
  | port => exact leads_throw
  | messageQueue => exact leads_throw
  | eventFd => exact leads_throw
  | linuxPipe => exact leads_throw
  | linuxDir => exact leads_throw

theorem leads_sysUnlinkat {path : Path} :
  Leads above (sysUnlinkat pid path) ⟨sys, []⟩ Settled := by
  unfold sysUnlinkat
  refine leads_get_bind (.bind hwell leads_check ?_)
  rintro _ mid - ⟨-, rfl⟩
  refine .bind hwell leads_check ?_
  rintro _ mid - ⟨-, rfl⟩
  refine leads_orErrno_bind hwell fun ⟨objectId, fxfs⟩ _ => ?_
  refine .bind hwell leads_onFxfs ?_
  rintro _ unlinked hunlinked ⟨store, -, rfl⟩
  have uncached : Leads above (onFiles (modify fun files =>
        if isShmPath path then files.removeLinuxShmCachedPath path else files))
      ⟨{ sys with files := { sys.files with fxfs := store } }, []⟩ Settled := by
    by_cases hshm : isShmPath path
    · simp only [hshm]
      exact (leads_files_modify [] (.of_effect (.uncache path))).mono
        fun _ _ last => last ▸ rfl
    · simp only [hshm]
      exact (leads_files_modify [] (.refl _)).mono fun _ _ last => last ▸ rfl
  refine .bind hunlinked uncached ?_
  rintro _ ⟨mid, pend⟩ hmid hpend
  cases hpend
  dsimp only
  split
  · exact leads_pure rfl
  · refine leads_orErrno_bind hmid fun released _ => ?_
    exact leads_onFxfs_set hmid

end

/-! ## All calls but those of a fork -/

/-- The calls that reserve, commit and roll back the resources of a fork. -/
def Call.forks : Call → Bool
  | .reserveFork .. | .commitFork .. | .rollbackReserved .. | .rollbackInstalled .. => true
  | _ => false

/-- No number between the hint and the least one that is asked for is free. -/
def Call.First (system : System) : Call → Prop
  | .dupfd pid _ minFd _ => ∀ number < minFd, max (system.hint pid) compatFdStart ≤ number →
    number ∈ system.usedFds pid
  | _ => True

theorem leads_map {Result : Type} {prog : SystemM Value} {change : Value → Result} {stage : Stage}
  (leads : Leads above prog stage Settled) : Leads above (change <$> prog) stage Settled := by
  have hrun : (change <$> prog) stage.system =
    (prog >>= fun value => pure (change value)) stage.system := rfl
  refine (ends_congr hrun).mpr (.bind leads fun value next hnext => ?_)
  exact ends_pure.mpr hnext

/-- A change of the state that is a chain, and an answer. -/
theorem leads_modify_pure {change} (hwell : WellFormed ⟨sys, []⟩)
  (chain : Chain above ⟨sys, []⟩ ⟨change sys, []⟩) :
  Leads above (do
    modify change
    pure answer) ⟨sys, []⟩ Settled := by
  refine .bind hwell (leads_modify [] chain) ?_
  rintro _ last - rfl
  exact leads_pure rfl

variable {call : Call}
include hwell
theorem leads_serve (forks : call.forks = false) (hfirst : above = false → call.First sys) :
    Leads above (serve call) ⟨sys, []⟩ Settled := by
  cases call with
  | openat => exact (leads_sysOpenat hwell).mono fun _ _ post => post.1
  | eventfd2 => exact leads_sysCreate hwell (by decide)
  | epollCreate1 => exact leads_sysCreate hwell (by decide)
  | pipe2 => exact leads_sysPipe2 hwell
  | msgget => exact leads_sysMsgget hwell
  | shmget => exact leads_sysShmget hwell
  | close => exact leads_sysClose hwell
  | dup => exact leads_sysDup hwell
  | dup2 => exact leads_sysDup2 hwell
  | dup3 => exact leads_sysDup3 hwell
  | dupfd => exact leads_fcntlDupfd hwell hfirst
  | setfd => exact leads_fcntlSetfd hwell
  | setfl => exact leads_fcntlSetfl hwell
  | read => exact leads_map (leads_fdRead hwell)
  | rollbackRead => exact leads_rollbackRead hwell
  | write => exact leads_fdWrite hwell
  | lseek => exact leads_sysLseek hwell
  | pread => exact leads_map (leads_sysPread hwell)
  | pwrite => exact leads_sysPwrite hwell
  | ftruncate => exact leads_sysFtruncate hwell
  | unlinkat => exact leads_sysUnlinkat hwell
  | setuid
  | setgid =>
    exact leads_modify_pure hwell
      (.of_effect (.attributes _ (fun _ => rfl) (fun _ => rfl) (fun _ => rfl) fun _ => rfl))
  | umask =>
    exact leads_get_bind (leads_modify_pure hwell
      (.of_effect (.attributes _ (fun _ => rfl) (fun _ => rfl) (fun _ => rfl) fun _ => rfl)))
  | exec => exact leads_modify_pure hwell chain_closeOnExec
  | exit => exact leads_modify_pure hwell (.of_effect (.exited _))
  | reserveFork => cases forks
  | commitFork => cases forks
  | rollbackReserved => cases forks
  | rollbackInstalled => cases forks

/-- Every call but those of a fork is a chain of steps. -/
theorem next_chain (forks : call.forks = false) (hfirst : above = false → call.First sys) :
    Chain above ⟨sys, []⟩ ⟨next sys call, []⟩ := by
  have leads := leads_serve hwell forks hfirst
  unfold next
  cases hrun : serve call sys with
  | ok answer after =>
    obtain ⟨pend, chain, hpend⟩ := leads.ok hrun
    cases hpend
    exact chain
  | error reason after =>
    rcases leads.error hrun with rfl | chain
    · exact .refl _
    cases reason with
    | waits => exact .refl _
    | errno error => exact chain
    | assertion => exact chain

end Smros.Files
