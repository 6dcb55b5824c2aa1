import Smros.Files.Lookup

/-!
# Calls as chains of steps

Every call that is not part of a fork leads to its end by steps of `Effect`.
-/

namespace Smros.Files
open Lib Program LinuxOpenDescriptions Files.System

/-- Steps one after the other. -/
def Chain (above : Bool) : Stage → Stage → Prop := Relation.ReflTransGen (Effect above)

variable {above : Bool}
namespace Chain
variable {before middle after : Stage}
theorem refl (stage) : Chain above stage stage := Relation.ReflTransGen.refl

theorem trans (hfirst : Chain above before middle) (hsnd : Chain above middle after) :
  Chain above before after :=
  Relation.ReflTransGen.trans hfirst hsnd

theorem of_effect (effect : Effect above before after) : Chain above before after :=
  Relation.ReflTransGen.single effect

theorem wellFormed (chain : Chain above before after) (well : WellFormed before) :
  WellFormed after := by
  induction chain with
  | refl => exact well
  | tail _ hstep ih =>
    exact hstep.wellFormed ih

end Chain

/-- From a stage, the program runs along a chain: to a value and a stage in
`post`, to an error with no object left over, or it waits. -/
def Leads {Value : Type} (above : Bool) (program : SystemM Value) (stage : Stage)
  (post : Value → Stage → Prop) : Prop :=
  Ends program stage.system (fun value system => ∃ pending, Chain above stage ⟨system, pending⟩ ∧
      post value ⟨system, pending⟩)
    (fun reason system => reason = .waits ∨ Chain above stage ⟨system, []⟩)

variable {next system : System} {pending : List Nat} {Value Result Error : Type} {stage : Stage}
  {post : Result → Stage → Prop} {result : Except Error Value} {reason : Failure}
  {error : Error → SysError} {rest : Value → SystemM Result} {value : Option Value}
  {first yes no : SystemM Value} {mid weaker : Value → Stage → Prop} {test : Prop}
theorem Leads.bind (well : WellFormed stage) (hfirst : Leads above first stage mid)
  (hrest : ∀ value middle, WellFormed middle → mid value middle →
    Leads above (rest value) middle post) : Leads above (first >>= rest) stage post := by
  refine Ends.bind hfirst fun value next hmid => ?_
  obtain ⟨pend, chain, hmiddle⟩ := hmid
  refine (hrest value _ (chain.wellFormed well) hmiddle).mono ?_ ?_
  · rintro result last ⟨left, hlast, hpost⟩
    exact ⟨left, chain.trans hlast, hpost⟩
  · rintro reason last (waits | hlast)
    · exact .inl waits
    · exact .inr (chain.trans hlast)

theorem Leads.mono {prog post} (leads : Leads above prog stage post)
  (hpost : ∀ value after, post value after → weaker value after) :
  Leads above prog stage weaker := by
  refine Ends.mono leads ?_ fun _ _ fail => fail
  rintro value next ⟨left, chain, hvalue⟩
  exact ⟨left, chain, hpost value _ hvalue⟩

theorem leads_pure {value : Value} {post : Value → Stage → Prop} (hpost : post value stage) :
  Leads above (pure value) stage post :=
  ends_pure.mpr ⟨stage.pending, .refl stage, hpost⟩

theorem leads_throw {post : Value → Stage → Prop} : Leads above (throw reason) ⟨system, []⟩ post :=
  ends_throw.mpr (.inr (.refl _))

theorem leads_get_bind {rest} (hrest : Leads above (rest stage.system) stage post) :
  Leads above (get >>= rest) stage post :=
  ends_get_bind.mpr hrest

/-- Both branches of a test lead on. -/
theorem leads_ite [Decidable test] {post} (hyes : test → Leads above yes stage post)
  (hno : ¬ test → Leads above no stage post) :
  Leads above (if test then yes else no) stage post := by
  split
  · exact hyes ‹_›
  · exact hno ‹_›

theorem leads_orThrow : Leads above (orThrow reason value) ⟨system, []⟩ fun found after =>
    value = some found ∧ after = ⟨system, []⟩ := by
  cases value with
  | none => exact ends_throw.mpr (.inr (.refl _))
  | some found => exact ends_pure.mpr ⟨[], .refl _, rfl, rfl⟩

theorem leads_orThrow_bind (well : WellFormed ⟨system, []⟩)
  (hrest : ∀ found, value = some found → Leads above (rest found) ⟨system, []⟩ post) :
  Leads above (orThrow reason value >>= rest) ⟨system, []⟩ post := by
  refine .bind well leads_orThrow ?_
  rintro found mid - ⟨hfound, rfl⟩
  exact hrest found hfound

theorem leads_orThrow_some {value : Value} :
  Leads above (orThrow reason (some value)) stage fun found after =>
    found = value ∧ after = stage :=
  leads_pure ⟨rfl, rfl⟩

theorem leads_orErrno : Leads above (orErrno error result) ⟨system, []⟩ fun found after =>
    result = .ok found ∧ after = ⟨system, []⟩ := by
  cases result with
  | error reason => exact ends_throw.mpr (.inr (.refl _))
  | ok found => exact ends_pure.mpr ⟨[], .refl _, rfl, rfl⟩

theorem leads_orErrno_bind (well : WellFormed ⟨system, []⟩)
  (hrest : ∀ found, result = .ok found → Leads above (rest found) ⟨system, []⟩ post) :
  Leads above (orErrno error result >>= rest) ⟨system, []⟩ post := by
  refine .bind well leads_orErrno ?_
  rintro found mid - ⟨hfound, rfl⟩
  exact hrest found hfound

theorem leads_check {answer} :
  Leads above (check answer) ⟨system, []⟩ fun _ after => answer = none ∧ after = ⟨system, []⟩ := by
  cases answer with
  | none => exact ends_pure.mpr ⟨[], .refl _, rfl, rfl⟩
  | some error => exact ends_throw.mpr (.inr (.refl _))

/-- A change of the state that is a chain. -/
theorem leads_set (left) (chain : Chain above stage ⟨next, left⟩) :
  Leads above (set next) stage fun _ last => last = ⟨next, left⟩ :=
  ends_set.mpr ⟨left, chain, rfl⟩

theorem leads_modify {change} (left) (chain : Chain above stage ⟨change stage.system, left⟩) :
  Leads above (modify change) stage fun _ last => last = ⟨change stage.system, left⟩ :=
  ends_modify.mpr ⟨left, chain, rfl⟩

theorem leads_files_modify {change} (left)
  (chain : Chain above stage ⟨{ stage.system with files := change stage.system.files }, left⟩) :
  Leads above (onFiles (modify change)) stage fun _ last =>
    last = ⟨{ stage.system with files := change stage.system.files }, left⟩ :=
  ends_zoom.mpr (ends_modify.mpr ⟨left, chain, rfl⟩)

/-- A part of a call that works on the files, by its own parts. -/
theorem Leads.onFilesBind {first rest} (well : WellFormed stage)
  (hfirst : Leads above (onFiles first) stage mid)
  (hrest : ∀ value middle, WellFormed middle → mid value middle →
    Leads above (onFiles (rest value)) middle post) :
  Leads above (onFiles (first >>= rest)) stage post := by
  refine ends_zoom.mpr (.bind (ends_zoom.mp hfirst) fun value files hmid => ?_)
  obtain ⟨pend, chain, hmiddle⟩ := hmid
  refine (ends_zoom.mp (hrest value _ (chain.wellFormed well) hmiddle)).mono ?_ ?_
  · rintro result last ⟨left, hlast, hpost⟩
    exact ⟨left, chain.trans hlast, hpost⟩
  · rintro reason last (waits | hlast)
    · exact .inl waits
    · exact .inr (chain.trans hlast)

theorem leads_files_get_bind {rest}
  (hrest : Leads above (onFiles (rest stage.system.files)) stage post) :
  Leads above (onFiles (get >>= rest)) stage post :=
  ends_zoom.mpr (ends_get_bind.mpr (ends_zoom.mp hrest))

theorem leads_files_pure {value : Value} {post : Value → Stage → Prop}
  (hpost : post value stage) : Leads above (onFiles (pure value)) stage post :=
  ends_zoom.mpr (ends_pure.mpr ⟨stage.pending, .refl stage, hpost⟩)

theorem leads_files_throw {post : Value → Stage → Prop} :
  Leads above (onFiles (throw reason)) ⟨system, []⟩ post :=
  ends_zoom.mpr (ends_throw.mpr (.inr (.refl _)))

theorem leads_files_set {files} (left)
  (chain : Chain above stage ⟨{ stage.system with files := files }, left⟩) :
  Leads above (onFiles (set files)) stage fun _ last =>
    last = ⟨{ stage.system with files := files }, left⟩ :=
  ends_zoom.mpr (ends_set.mpr ⟨left, chain, rfl⟩)

theorem leads_files_ite [Decidable test] {yes no : FilesM Value} {post : Value → Stage → Prop}
  (hyes : test → Leads above (onFiles yes) stage post)
  (hno : ¬ test → Leads above (onFiles no) stage post) :
  Leads above (onFiles (if test then yes else no)) stage post := by
  split
  · exact hyes ‹_›
  · exact hno ‹_›

theorem leads_files_orErrno :
  Leads above (onFiles (orErrno error result)) ⟨system, []⟩ fun found after =>
    result = .ok found ∧ after = ⟨system, []⟩ := by
  cases result with
  | error reason => exact leads_files_throw
  | ok found => exact leads_files_pure ⟨rfl, rfl⟩

theorem leads_files_orErrno_bind {rest} (well : WellFormed ⟨system, []⟩)
  (hrest : ∀ found, result = .ok found → Leads above (onFiles (rest found)) ⟨system, []⟩ post) :
  Leads above (onFiles (orErrno error result >>= rest)) ⟨system, []⟩ post := by
  refine .onFilesBind well leads_files_orErrno ?_
  rintro found mid - ⟨hfound, rfl⟩
  exact hrest found hfound

theorem leads_files_orThrow :
  Leads above (onFiles (orThrow reason value)) ⟨system, []⟩ fun found after =>
    value = some found ∧ after = ⟨system, []⟩ := by
  cases value with
  | none => exact leads_files_throw
  | some found => exact leads_files_pure ⟨rfl, rfl⟩

/-- Whatever a call does to the file store is one step. -/
theorem leads_onFxfs {prog : Program FxfsState Failure Value} :
  Leads above (onFxfs prog) ⟨system, []⟩ fun value after =>
    ∃ fxfs, prog system.files.fxfs = .ok value fxfs ∧
      after = ⟨{ system with files := { system.files with fxfs := fxfs } }, []⟩ := by
  unfold Leads onFxfs
  rw [ends_zoom]
  cases hrun : prog system.files.fxfs with
  | ok value fxfs => exact (ends_of_ok hrun).mpr ⟨[], .of_effect (.store fxfs), fxfs, rfl, rfl⟩
  | error reason fxfs => exact (ends_of_error hrun).mpr (.inr (.of_effect (.store fxfs)))

/-! ## New objects and descriptors -/

variable {closeOnExec : Bool} {objectType : ObjectType}
theorem leads_createObject (well : WellFormed ⟨system, []⟩) :
  Leads above (createObject objectType) ⟨system, []⟩ fun handle after =>
    ∃ compat, after = ⟨{ system with files := { system.files with compat := compat } }, [handle]⟩ ∧
      handle = system.files.compat.nextHandle ∧ compat.objectType handle = some objectType := by
  unfold createObject
  refine leads_get_bind (Leads.bind well leads_orThrow ?_)
  rintro ⟨handle, compat⟩ mid - ⟨create, rfl⟩
  have htype := CompatObjectTable.create_objectType well.shaped.live create
  obtain ⟨rfl, hlast, hnext, handles, -⟩ := CompatObjectTable.create_some create
  have chain : Chain above ⟨system, []⟩
    ⟨{ system with files := { system.files with compat := compat } },
      [system.files.compat.nextHandle]⟩ := Chain.of_effect (Effect.created hlast hnext handles)
  refine Leads.bind well (leads_set _ chain) ?_
  rintro _ last - rfl
  exact leads_pure ⟨compat, rfl, rfl, htype⟩

/-- A search that does not end keeps the caller waiting. -/
theorem leads_allocating {stage alloc post}
  (halloc : ∀ fd next, alloc stage.system = some (fd, next) →
    ∃ left, Chain above stage ⟨next, left⟩ ∧ post fd ⟨next, left⟩) :
  Leads above (allocating alloc) stage post := by
  unfold Leads allocating
  rw [ends_get_bind]
  cases search : alloc stage.system with
  | none =>
    rw [ends_orThrow_none]
    exact .inl rfl
  | some found =>
    obtain ⟨fd, next⟩ := found
    rw [ends_orThrow_some]
    have hset : (set next : SystemM PUnit) stage.system = .ok () next := rfl
    exact (ends_bind_of_ok hset).mpr (ends_pure.mpr (halloc fd next search))

/-- The record of the descriptor that an open has made. -/
structure Opened (before after : System) (pid fd handle : Nat) (objectType : ObjectType)
  (statusFlags : Nat) (closeOnExec : Bool) : Prop where
  entry : after.entryOf pid fd = some ⟨fd, before.files.table.nextOpenDescriptionId, closeOnExec⟩
  description : after.files.table.openDescription before.files.table.nextOpenDescriptionId =
    some (addReference (Shaped.created before.files handle objectType statusFlags))
  fxfsFiles : after.files.fxfsFiles = before.files.fxfsFiles
  fxfs : after.files.fxfs = before.files.fxfs
  others : ∀ id, id ≠ before.files.table.nextOpenDescriptionId →
    after.files.table.openDescription id = before.files.table.openDescription id
  compat : after.files.compat = before.files.compat
  fd_ge : compatFdStart ≤ fd

variable {handle pid fd id : Nat}
theorem descOfHandle_pending (shaped : Shaped system.files (handle :: pending)) :
  system.files.descriptionOfHandle handle = none := by
  obtain ⟨-, undescribed, -⟩ := shaped.undescribed handle (List.mem_cons_self ..)
  unfold OpenFiles.descriptionOfHandle
  rw [List.find?_eq_none.mpr fun desc hmem => ?_]
  · rfl
  have hne : desc.handle ≠ handle := fun same => undescribed (same ▸ List.mem_map_of_mem hmem)
  simpa using hne

variable {flags : Nat}
section
variable (well : WellFormed ⟨system, handle :: pending⟩)
include well
/-- A new object gets its description and a descriptor. -/
theorem opened_of_pending {hint} (hnew : fd ∉ system.usedFds pid) (hge : compatFdStart ≤ fd) :
  Opened system (aliased (described system handle objectType flags) pid
    ⟨fd, system.files.table.nextOpenDescriptionId, closeOnExec⟩ hint)
    pid fd handle objectType flags closeOnExec := by
  have created : (described system handle objectType flags).files.table.openDescription
    system.files.table.nextOpenDescriptionId =
      some (Shaped.created system.files handle objectType flags) :=
    openDesc_create_self well.shaped
  have indexed : (described system handle objectType flags).files.table.Indexed :=
    well.shaped.describe.indexed
  have files : (aliased (described system handle objectType flags) pid
    ⟨fd, system.files.table.nextOpenDescriptionId, closeOnExec⟩ hint).files = _ :=
    aliased_files_of_open created
  constructor
  · refine entryOf_addEntry_self ?_
    rw [usedFds_congr (acquireIgnored_tables _ _).1]
    exact hnew
  · rw [files]
    exact openDesc_mut_self indexed (fun _ => rfl) created
  · rw [files]
    rfl
  · rw [files]
    rfl
  · intro id hne
    have other : ((described system handle objectType flags).files.table.openDescriptionMut
      system.files.table.nextOpenDescriptionId addReference).openDescription id =
        (described system handle objectType flags).files.table.openDescription id :=
      openDesc_mut_ne indexed (fun _ => rfl) hne
    rw [files]
    exact other.trans (openDesc_create_ne well.shaped hne)
  · rw [files]
    rfl
  · exact hge

variable (htype : system.files.compat.objectType handle = some objectType)
include htype
theorem allocFdWithFlags_pending
  (alloc : system.allocFdWithFlags pid handle flags closeOnExec = some (fd, next)) :
  next = aliased (described system handle objectType flags) pid
    ⟨fd, system.files.table.nextOpenDescriptionId, closeOnExec⟩ (fun _ => followingFd fd) ∧
    system.freeFd pid 0 = some fd := by
  unfold allocFdWithFlags at alloc
  rw [descOfHandle_pending well.shaped, htype] at alloc
  obtain ⟨found, free, hfound⟩ := Option.map_eq_some_iff.mp alloc
  obtain ⟨hfd, hnext⟩ := Prod.mk.inj hfound
  subst hfd
  exact ⟨hnext.symm, free⟩

theorem leads_allocFdWithFlags (kind : objectType ≠ .sharedMemory) : Leads above
    (allocating fun system => system.allocFdWithFlags pid handle flags closeOnExec)
    ⟨system, handle :: pending⟩ fun fd after =>
      after.pending = pending ∧
        Opened system after.system pid fd handle objectType flags closeOnExec := by
  refine leads_allocating fun fd next alloc => ?_
  obtain ⟨rfl, free⟩ := allocFdWithFlags_pending well htype alloc
  obtain ⟨hnew, hge⟩ := freeFd_some free
  refine ⟨pending, .of_effect (.opened pid kind hnew (placed_free free)), rfl, ?_⟩
  dsimp only
  exact opened_of_pending well hnew hge

end

theorem pushFd_eq (system pid fd id closeOnExec) : system.pushFd pid fd id closeOnExec =
    aliased system pid ⟨fd, id, closeOnExec⟩ fun _ => followingFd fd := rfl

variable (live : Named system id ∨ ∃ cached ∈ system.files.shmCachedHandles, cached.descriptionId =
  id)
include live
/-- A duplicate of a description that is there. -/
theorem chain_allocFdFor
  (alloc : system.allocFdForDescription pid id closeOnExec = some (fd, next)) :
    Chain above ⟨system, pending⟩ ⟨next, pending⟩ := by
  obtain ⟨found, free, hfound⟩ := Option.map_eq_some_iff.mp alloc
  cases hfound
  obtain ⟨hnew, -⟩ := freeFd_some free
  rw [pushFd_eq]
  exact .of_effect (.duplicated pid (getFd_of_free hnew) live fun _ => placed_free free)

theorem leads_allocFdFor :
    Leads above (allocating fun system => system.allocFdForDescription pid id closeOnExec)
      ⟨system, pending⟩ fun fd after =>
        after = ⟨system.pushFd pid fd id closeOnExec, pending⟩ ∧ fd ∉ system.usedFds pid := by
  refine leads_allocating fun fd next alloc => ?_
  have chain : Chain above ⟨system, pending⟩ ⟨next, pending⟩ := chain_allocFdFor live alloc
  obtain ⟨found, free, hfound⟩ := Option.map_eq_some_iff.mp alloc
  cases hfound
  exact ⟨pending, chain, rfl, (freeFd_some free).1⟩

end Smros.Files
