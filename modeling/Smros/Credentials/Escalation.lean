import Smros.Credentials.Core

/-!
# No process gains identifiers

The calls that set identifiers do not check who asks.  As long as processes
without root's identifiers ask for their own only, such a process and all its
descendants keep within the identifiers it had, and so the checks of signals
and of shared memory objects refuse them what belongs to others.
-/

namespace Smros.Credentials
open Lib List Option Subset
variable {bound : LinuxCredentialsCore}
namespace LinuxCredentialsCore
variable (credentials : LinuxCredentialsCore)

def ownUids : List Nat := [credentials.realUid, credentials.effectiveUid, credentials.savedUid]

def ownGids : List Nat := [credentials.realGid, credentials.effectiveGid, credentials.savedGid]

/-- None of the user identifiers is root's. -/
def Unprivileged : Prop := 0 ∉ credentials.ownUids

instance (credentials : LinuxCredentialsCore) : Decidable credentials.Unprivileged :=
  inferInstanceAs (Decidable (0 ∉ credentials.ownUids))

/-- The first has no identifier that the second has not. -/
structure Within (credentials bound : LinuxCredentialsCore) : Prop where
  uids : credentials.ownUids ⊆ bound.ownUids
  gids : credentials.ownGids ⊆ bound.ownGids
  filesystemUid : credentials.filesystemUid ∈ bound.filesystemUid :: bound.ownUids
  filesystemGid : credentials.filesystemGid ∈ bound.filesystemGid :: bound.ownGids

variable {credentials} {middle : LinuxCredentialsCore}
theorem Within.refl (credentials) : Within credentials credentials :=
  ⟨Subset.refl _, Subset.refl _, mem_cons_self .., mem_cons_self ..⟩

theorem Within.trans (hfirst : Within credentials middle) (hsnd : Within middle bound) :
  Within credentials bound where
  uids := Subset.trans hfirst.uids hsnd.uids
  gids := Subset.trans hfirst.gids hsnd.gids
  filesystemUid := by
    rcases mem_cons.mp hfirst.filesystemUid with same | hown
    · exact same ▸ hsnd.filesystemUid
    · exact mem_cons_of_mem _ (hsnd.uids hown)
  filesystemGid := by
    rcases mem_cons.mp hfirst.filesystemGid with same | hown
    · exact same ▸ hsnd.filesystemGid
    · exact mem_cons_of_mem _ (hsnd.gids hown)

variable (within : Within credentials bound)
include within
theorem Within.unprivileged (hbound : bound.Unprivileged) : credentials.Unprivileged :=
  fun root => hbound (within.uids root)

theorem Within.effectiveUid : credentials.effectiveUid ∈ bound.ownUids :=
  within.uids (mem_cons_of_mem _ (mem_cons_self ..))

theorem Within.realUid : credentials.realUid ∈ bound.ownUids := within.uids (mem_cons_self ..)

theorem Within.effectiveGid : credentials.effectiveGid ∈ bound.ownGids :=
  within.gids (mem_cons_of_mem _ (mem_cons_self ..))

end LinuxCredentialsCore

open LinuxCredentialsCore

/-! ## One call -/

/-- The user identifiers that a call asks for. -/
def IdCall.requestedUids : IdCall → List Nat
  | .setuid uid => [uid]
  | .setreuid ruid euid => [ruid, euid].filter (!unchangedId ·)
  | .setresuid ruid euid suid => [ruid, euid, suid].filter (!unchangedId ·)
  | .setfsuid uid => [uid]
  | _ => []

/-- The group identifiers that a call asks for. -/
def IdCall.requestedGids : IdCall → List Nat
  | .setgid gid => [gid]
  | .setregid rgid egid => [rgid, egid].filter (!unchangedId ·)
  | .setresgid rgid egid sgid => [rgid, egid, sgid].filter (!unchangedId ·)
  | .setfsgid gid => [gid]
  | _ => []

/-- A call asks for identifiers of its process only. -/
def IdCall.AsksOwn (call : IdCall) (credentials : LinuxCredentialsCore) : Prop :=
  call.requestedUids ⊆ credentials.ownUids ∧ call.requestedGids ⊆ credentials.ownGids

instance (call : IdCall) (credentials : LinuxCredentialsCore) :
  Decidable (call.AsksOwn credentials) :=
  inferInstanceAs (Decidable ((∀ uid ∈ call.requestedUids, uid ∈ credentials.ownUids) ∧
    ∀ gid ∈ call.requestedGids, gid ∈ credentials.ownGids))

variable {asked cur pid : Nat} {own ids : List Nat}
theorem idOrCurrent_mem (hrequested : unchangedId asked = false → asked ∈ own)
  (hcurrent : cur ∈ own) : linuxIdOrCurrent asked cur ∈ own := by
  unfold linuxIdOrCurrent
  cases keeps : unchangedId asked with
  | true => exact hcurrent
  | false => exact hrequested keeps

theorem mem_requested (asks : ids.filter (!unchangedId ·) ⊆ own) (hmem : asked ∈ ids) :
  unchangedId asked = false → asked ∈ own := fun changes =>
  asks (mem_filter.mpr ⟨hmem, by rw [changes]; rfl⟩)

variable {call : IdCall} {credentials : LinuxCredentialsCore} {real effective saved : Nat}
theorem setResuid_within (hreal : real ∈ credentials.ownUids)
  (heffective : effective ∈ credentials.ownUids) (hsaved : saved ∈ credentials.ownUids) :
  Within (credentials.setResuid real effective saved) credentials where
  uids := by
    intro uid huid
    rcases mem_cons.mp huid with rfl | rest
    · exact hreal
    rcases mem_cons.mp rest with rfl | last
    · exact heffective
    · exact mem_singleton.mp last ▸ hsaved
  gids := refl _
  filesystemUid := mem_cons_of_mem _ heffective
  filesystemGid := mem_cons_self ..

theorem setResgid_within (hreal : real ∈ credentials.ownGids)
  (heffective : effective ∈ credentials.ownGids) (hsaved : saved ∈ credentials.ownGids) :
  Within (credentials.setResgid real effective saved) credentials where
  uids := refl _
  gids := by
    intro gid hgid
    rcases mem_cons.mp hgid with rfl | rest
    · exact hreal
    rcases mem_cons.mp rest with rfl | last
    · exact heffective
    · exact mem_singleton.mp last ▸ hsaved
  filesystemUid := mem_cons_self ..
  filesystemGid := mem_cons_of_mem _ heffective

/-- A call that asks for own identifiers gives no others. -/
theorem IdCall.serve_within (asks : call.AsksOwn credentials) :
  Within (call.serve credentials) credentials := by
  obtain ⟨uids, gids⟩ := asks
  have realUid : credentials.realUid ∈ credentials.ownUids := mem_cons_self ..
  have effectiveUid : credentials.effectiveUid ∈ credentials.ownUids :=
    (Within.refl credentials).effectiveUid
  have savedUid : credentials.savedUid ∈ credentials.ownUids := by simp [ownUids]
  have realGid : credentials.realGid ∈ credentials.ownGids := mem_cons_self ..
  have effectiveGid : credentials.effectiveGid ∈ credentials.ownGids :=
    (Within.refl credentials).effectiveGid
  have savedGid : credentials.savedGid ∈ credentials.ownGids := by simp [ownGids]
  cases call with
  | setuid uid =>
    have huid : uid ∈ credentials.ownUids := uids (mem_singleton_self uid)
    exact setResuid_within huid huid huid
  | setgid gid =>
    have hgid : gid ∈ credentials.ownGids := gids (mem_singleton_self gid)
    exact setResgid_within hgid hgid hgid
  | setreuid ruid euid =>
    have effective : linuxIdOrCurrent euid credentials.effectiveUid ∈ credentials.ownUids :=
      idOrCurrent_mem (mem_requested uids (by simp)) effectiveUid
    exact setResuid_within (idOrCurrent_mem (mem_requested uids (by simp)) realUid)
      effective effective
  | setregid rgid egid =>
    have effective : linuxIdOrCurrent egid credentials.effectiveGid ∈ credentials.ownGids :=
      idOrCurrent_mem (mem_requested gids (by simp)) effectiveGid
    exact setResgid_within (idOrCurrent_mem (mem_requested gids (by simp)) realGid)
      effective effective
  | setresuid ruid euid suid =>
    exact setResuid_within (idOrCurrent_mem (mem_requested uids (by simp)) realUid)
      (idOrCurrent_mem (mem_requested uids (by simp)) effectiveUid)
      (idOrCurrent_mem (mem_requested uids (by simp)) savedUid)
  | setresgid rgid egid sgid =>
    exact setResgid_within (idOrCurrent_mem (mem_requested gids (by simp)) realGid)
      (idOrCurrent_mem (mem_requested gids (by simp)) effectiveGid)
      (idOrCurrent_mem (mem_requested gids (by simp)) savedGid)
  | setfsuid uid =>
    exact ⟨refl _, refl _, mem_cons_of_mem _ (uids (mem_singleton_self uid)), mem_cons_self ..⟩
  | setfsgid gid =>
    exact ⟨refl _, refl _, mem_cons_self .., mem_cons_of_mem _ (gids (mem_singleton_self gid))⟩

/-! ## Records after a step -/

variable {state : State}
namespace State
variable {other : Nat} {found : LinuxCredentialsCore}
  {change : LinuxCredentialsCore → LinuxCredentialsCore}
theorem find_mut_self (hfind : state.find pid = some credentials) :
  (state.credentialsMut pid change).find pid = some (change credentials) := by
  have hsome : (state.find pid).isSome := isSome_iff_exists.mpr ⟨_, hfind⟩
  obtain ⟨proc, hproc, rfl⟩ := map_eq_some_iff.mp hfind
  unfold credentialsMut
  rw [if_pos hsome]
  unfold find
  rw [Counted.find?_adjust_self, hproc]
  · rfl
  · exact fun _ => rfl

theorem find_mut_ne (hne : other ≠ pid) :
  (state.credentialsMut pid change).find other = state.find other := by
  unfold credentialsMut
  split
  · unfold find
    rw [Counted.find?_adjust_ne _ hne]
    exact fun _ => rfl
  · unfold find
    rw [find?_append, find?_singleton, if_neg (by simpa using hne.symm), or_none]

theorem find_append_self (hnone : ¬ (state.find pid).isSome) (resvs) :
  ({ processes := state.processes ++ [⟨pid, credentials⟩]
     reservations := resvs } : State).find pid = some credentials := by
  have absent : state.processes.find? (·.pid = pid) = none := by simpa [find] using hnone
  unfold find
  rw [find?_append, absent, none_or, find?_singleton, if_pos (by simp)]
  rfl

theorem find_append_old (hfind : state.find other = some found) (resvs) :
  ({ processes := state.processes ++ [⟨pid, credentials⟩]
     reservations := resvs } : State).find other = some found := by
  obtain ⟨proc, hproc, rfl⟩ := map_eq_some_iff.mp hfind
  unfold find
  rw [find?_append, hproc]
  rfl

theorem find_exit_ne (hne : other ≠ pid) : (state.exit pid).find other = state.find other := by
  unfold exit find
  rw [Counted.find?_without_ne hne]

end State

/-! ## Descendants -/

/-- The descendants of a process, and which of the forks in progress are theirs. -/
structure Lineage where
  pids : List Nat
  marks : List Bool
  deriving DecidableEq

/-- The lineage after a step that is taken in `state`. -/
def Lineage.step (state : State) (lineage : Lineage) : Event → Lineage
  | .reserve parentPid =>
    { lineage with marks := lineage.marks ++ [decide (parentPid ∈ lineage.pids)] }
  | .commit index childPid room =>
    { marks := lineage.marks.eraseIdx index
      pids :=
        if lineage.marks[index]? = some true ∧ ¬ ((state.find childPid).isSome ∨ ¬ room) then
          childPid :: lineage.pids
        else lineage.pids }
  | .drop index => { lineage with marks := lineage.marks.eraseIdx index }
  | .exit pid => { lineage with pids := lineage.pids.filter (· ≠ pid) }
  | _ => lineage

/-- Steps with the descendants of one process. -/
def stepWith (pair : State × Lineage) (event : Event) : State × Lineage :=
  (step pair.1 event, pair.2.step pair.1 event)

/-- A process alone, before any fork of its own. -/
def Lineage.start (state : State) (pid : Nat) : Lineage where
  pids := [pid]
  marks := state.reservations.map fun _ => false

/-- Descendants without an identifier of root ask for their own. -/
def ownGuard (pair : State × Lineage) : Event → Prop
  | .set pid call => pid ∈ pair.2.pids → (pair.1.credentials pid).Unprivileged →
    call.AsksOwn (pair.1.credentials pid)
  | _ => True

/-- The descendants and their forks keep within the identifiers. -/
structure Held (bound : LinuxCredentialsCore) (pair : State × Lineage) : Prop where
  aligned : pair.2.marks.length = pair.1.reservations.length
  processes : ∀ pid ∈ pair.2.pids, ∃ credentials, pair.1.find pid = some credentials ∧
    Within credentials bound
  forks : ∀ (index : Nat) credentials, pair.2.marks[index]? = some true →
    pair.1.reservations[index]? = some credentials → Within credentials bound

variable {lineage : Lineage}
theorem Held.start (find : state.find pid = some bound) : Held bound (state, .start state pid) where
  aligned := length_map _
  processes := by
    intro other hother
    cases mem_singleton.mp hother
    exact ⟨bound, find, .refl bound⟩
  forks := by
    intro idx creds mark
    unfold Lineage.start at mark
    rw [getElem?_map] at mark
    obtain ⟨-, -, hfalse⟩ := map_eq_some_iff.mp mark
    cases hfalse

theorem credentials_of_find (find : state.find pid = some credentials) :
  state.credentials pid = credentials := by
  unfold State.credentials
  rw [find]
  rfl

theorem Held.set (hbound : bound.Unprivileged) (hheld : Held bound (state, lineage))
  (guard : ownGuard (state, lineage) (.set pid call)) :
  Held bound (stepWith (state, lineage) (.set pid call)) where
  aligned := hheld.aligned
  processes := by
    intro other hother
    obtain ⟨creds, find, within⟩ := hheld.processes other hother
    by_cases same : other = pid
    · subst same
      have hcreds := credentials_of_find find
      have hown : (state.credentials other).Unprivileged →
        call.AsksOwn (state.credentials other) := guard hother
      rw [hcreds] at hown
      have asks := hown (within.unprivileged hbound)
      exact ⟨call.serve creds, State.find_mut_self find, (IdCall.serve_within asks).trans within⟩
    · exact ⟨creds, (State.find_mut_ne same).trans find, within⟩
  forks := hheld.forks

section
variable (hheld : Held bound (state, lineage)) {ppid idx cpid : Nat}
include hheld
theorem Held.reserve : Held bound (stepWith (state, lineage) (.reserve ppid)) := by
  have aligned := hheld.aligned
  dsimp only at aligned
  constructor
  · unfold stepWith Lineage.step step State.reserve
    simp only [length_append, aligned, length_singleton]
  · exact hheld.processes
  intro idx credentials mark reserved
  by_cases hold : idx < lineage.marks.length
  · have mark' : lineage.marks[idx]? = some true := (getElem?_append_left hold).symm.trans mark
    have reserved' : state.reservations[idx]? = some credentials :=
      (getElem?_append_left (aligned ▸ hold)).symm.trans reserved
    exact hheld.forks idx credentials mark' reserved'
  have last : idx = lineage.marks.length := by
    have length := (List.getElem?_eq_some_iff.mp mark).1
    have after : idx < (lineage.marks ++ [decide (ppid ∈ lineage.pids)]).length := length
    rw [length_append, length_singleton] at after
    omega
  subst last
  have hnew : some (decide (ppid ∈ lineage.pids)) = some true :=
    getElem?_concat_length.symm.trans mark
  obtain ⟨found, find, within⟩ := hheld.processes ppid (of_decide_eq_true (some.inj hnew))
  have clone : some (state.credentials ppid) = some credentials := by
    refine .trans ?_ reserved
    rw [aligned]
    exact getElem?_concat_length.symm
  have hcredentials := credentials_of_find find
  rw [← some.inj clone, hcredentials]
  exact within

/-- A fork that is over leaves the others. -/
theorem Held.forks_erase (idx) :
  (lineage.marks.eraseIdx idx).length = (state.reservations.eraseIdx idx).length ∧
    ∀ (pos : Nat) credentials, (lineage.marks.eraseIdx idx)[pos]? = some true →
      (state.reservations.eraseIdx idx)[pos]? = some credentials → Within credentials bound := by
  have aligned : lineage.marks.length = state.reservations.length := hheld.aligned
  constructor
  · rw [length_eraseIdx, length_eraseIdx, aligned]
  intro pos credentials mark reserved
  rw [getElem?_eraseIdx] at mark reserved
  by_cases before : pos < idx
  · rw [if_pos before] at mark reserved
    exact hheld.forks pos credentials mark reserved
  · rw [if_neg before] at mark reserved
    exact hheld.forks (pos + 1) credentials mark reserved

theorem Held.commit {room} : Held bound (stepWith (state, lineage) (.commit idx cpid room)) := by
  have length : lineage.marks.length = state.reservations.length := hheld.aligned
  obtain ⟨aligned, forks⟩ := hheld.forks_erase idx
  unfold stepWith step State.commit Lineage.step
  cases hclone : state.reservations[idx]? with
  | none =>
    have hout := getElem?_eq_none_iff.mp hclone
    have mark : lineage.marks[idx]? = none := getElem?_eq_none_iff.mpr (length ▸ hout)
    have same : lineage.marks.eraseIdx idx = lineage.marks := eraseIdx_of_length_le (length ▸ hout)
    dsimp only
    rw [hclone, mark, same, if_neg fun both => by cases both.1]
    exact hheld
  | some clone =>
    dsimp only
    rw [hclone]
    dsimp only
    by_cases busy : (state.find cpid).isSome ∨ ¬ room
    · rw [if_pos busy, if_neg fun both => both.2 busy]
      exact ⟨aligned, hheld.processes, forks⟩
    rw [if_neg busy]
    have hnone : ¬ (state.find cpid).isSome := fun hsome => busy (.inl hsome)
    have hold : ∀ pid ∈ lineage.pids, ∃ creds,
      ({ processes := state.processes ++ [⟨cpid, clone⟩]
         reservations := state.reservations.eraseIdx idx } : State).find pid =
        some creds ∧ Within creds bound := by
      intro pid hpid
      obtain ⟨creds, find, within⟩ := hheld.processes pid hpid
      exact ⟨creds, State.find_append_old find _, within⟩
    refine ⟨aligned, ?_, forks⟩
    dsimp only
    by_cases mark : lineage.marks[idx]? = some true
    · rw [if_pos ⟨mark, busy⟩]
      intro pid hpid
      rcases mem_cons.mp hpid with rfl | other
      · exact ⟨clone, State.find_append_self hnone _, hheld.forks idx clone mark hclone⟩
      · exact hold pid other
    · rw [if_neg fun both => mark both.1]
      exact hold

theorem Held.drop : Held bound (stepWith (state, lineage) (.drop idx)) :=
  ⟨(hheld.forks_erase idx).1, hheld.processes, (hheld.forks_erase idx).2⟩

theorem Held.exit : Held bound (stepWith (state, lineage) (.exit pid)) where
  aligned := hheld.aligned
  processes := by
    intro other hother
    obtain ⟨hold, hne⟩ := mem_filter.mp hother
    obtain ⟨creds, find, within⟩ := hheld.processes other hold
    exact ⟨creds, (State.find_exit_ne (of_decide_eq_true hne)).trans find, within⟩
  forks := hheld.forks

end

theorem Held.step {event} (hbound : bound.Unprivileged) (hheld : Held bound (state, lineage))
  (guard : ownGuard (state, lineage) event) : Held bound (stepWith (state, lineage) event) := by
  cases event with
  | set pid call => exact hheld.set hbound guard
  | reserve ppid => exact hheld.reserve
  | commit idx cpid room => exact hheld.commit
  | drop idx => exact hheld.drop
  | exit pid => exact hheld.exit
  | kill senderPid targetPid => exact hheld

/-! ## The checks -/

variable {targetPid accessMode : Nat}
/-- A process of others, or the first process, gets no signal. -/
theorem kill_refused (find : state.find pid = some credentials) (within : Within credentials bound)
  (hbound : bound.Unprivileged) (target : targetPid = linuxRootPid ∨
    (state.credentials targetPid).realUid ∉ bound.ownUids ∧
      (state.credentials targetPid).savedUid ∉ bound.ownUids) :
  linuxKillPermission state pid targetPid = some .eperm := by
  have hcreds := credentials_of_find find
  have root : credentials.effectiveUid ≠ 0 := fun zero => hbound (zero ▸ within.effectiveUid)
  unfold linuxKillPermission
  rw [hcreds]
  dsimp only
  rw [if_neg root]
  by_cases hfirst : targetPid = linuxRootPid
  · rw [if_pos hfirst]
  obtain ⟨real, saved⟩ := target.resolve_left hfirst
  rw [if_neg hfirst, if_neg]
  rintro (same | same | same | same)
  · exact real (same ▸ within.realUid)
  · exact saved (same ▸ within.realUid)
  · exact real (same ▸ within.effectiveUid)
  · exact saved (same ▸ within.effectiveUid)

/-- The permission bits that an object grants to a class of users. -/
def grants (bits accessMode : Nat) : Bool :=
  (accessMode = Files.linuxOWronly || Files.hasFlag bits 0o4) &&
    (accessMode = Files.linuxORdonly || Files.hasFlag bits 0o2)

/-- An object of others is open to a process just as far as its mode grants it
to the group of the process or to all. -/
theorem shm_open_iff {attrs} (find : state.find pid = some credentials)
  (within : Within credentials bound) (hbound : bound.Unprivileged)
  (owner : attrs.uid ∉ bound.ownUids) :
  linuxShmCheckOpenPermissions state pid attrs accessMode = none ↔
    grants (if credentials.effectiveGid = attrs.gid then (attrs.mode >>> 3) &&& 0o7
      else attrs.mode &&& 0o7) accessMode := by
  have hcreds := credentials_of_find find
  have root : credentials.effectiveUid ≠ 0 := fun zero => hbound (zero ▸ within.effectiveUid)
  have other : credentials.effectiveUid ≠ attrs.uid := fun same =>
    owner (same ▸ within.effectiveUid)
  unfold linuxShmCheckOpenPermissions Files.linuxModeAccessAllowed grants
  rw [hcreds]
  dsimp only
  rw [if_neg root, if_neg other]
  simp only [ite_eq_left_iff, reduceCtorEq, imp_false, not_not, ne_eq, decide_not, Bool.not_not]

/-! ## Runs -/

/-- What a process without an identifier of root, and each of its descendants,
may do that keeps within the identifiers `bound`. -/
structure Confined (bound : LinuxCredentialsCore) (state : State) (pid : Nat) : Prop where
  identifiers : Within (state.credentials pid) bound
  signals : ∀ targetPid, targetPid = linuxRootPid ∨
    (state.credentials targetPid).realUid ∉ bound.ownUids ∧
      (state.credentials targetPid).savedUid ∉ bound.ownUids →
    linuxKillPermission state pid targetPid = some .eperm
  objects : ∀ (attrs : Files.FxfsAttributes) accessMode, attrs.uid ∉ bound.ownUids →
    (linuxShmCheckOpenPermissions state pid attrs accessMode = none ↔
      grants (if (state.credentials pid).effectiveGid = attrs.gid then (attrs.mode >>> 3) &&& 0o7
        else attrs.mode &&& 0o7) accessMode)

theorem Held.confined {state lineage} (hheld : Held bound (state, lineage))
  (hbound : bound.Unprivileged) (hpid : pid ∈ lineage.pids) : Confined bound state pid := by
  obtain ⟨creds, find, within⟩ := hheld.processes pid hpid
  have hcreds := credentials_of_find find
  refine ⟨hcreds ▸ within, fun targetPid => kill_refused find within hbound, ?_⟩
  intro attrs accessMode owner
  rw [hcreds]
  exact shm_open_iff find within hbound owner

/-- In every run in which a process without an identifier of root and its descendants
ask for their own identifiers only, they never have any other. -/
theorem identifiers_confined (before : State) (pid : Nat) (bound : LinuxCredentialsCore)
  (events : List Event) (hfind : before.find pid = some bound) (hbound : bound.Unprivileged)
  (hasks : Guarded ownGuard stepWith (before, Lineage.start before pid) events) :
  ∀ other ∈ (run stepWith (before, Lineage.start before pid) events).2.pids,
    Confined bound (run step before events) other := by
  intro other hother
  have hheld : Held bound (run stepWith (before, Lineage.start before pid) events) :=
    guarded_invariant (fun _ _ hheld hguard => hheld.step hbound hguard)
      (Held.start hfind) hasks
  have hstate : (run stepWith (before, Lineage.start before pid) events).1 =
      run step before events :=
    run_project (fun _ _ => rfl) _ events
  rw [← hstate]
  exact hheld.confined hbound hother

/-- A second process that has given up the identifiers of root. -/
def userEvents : List Event := [.reserve 1, .commit 0 2 true, .set 2 (.setgid 100), .set 2 (.setuid 1000)]

def userCredentials : LinuxCredentialsCore :=
  (LinuxCredentialsCore.root.setResgid 100 100 100).setResuid 1000 1000 1000

/-- It forks a child, which sets its identifiers to their own values. -/
theorem identifiers_confined_child :
  3 ∈ (run stepWith (run step .start userEvents, Lineage.start (run step .start userEvents) 2)
      [.reserve 2, .commit 0 3 true, .set 3 (.setreuid 1000 1000), .kill 3 1]).2.pids ∧
    Confined userCredentials (run step (run step .start userEvents)
      [.reserve 2, .commit 0 3 true, .set 3 (.setreuid 1000 1000), .kill 3 1]) 3 := by
  refine ⟨by decide, ?_⟩
  apply identifiers_confined (run step .start userEvents) 2
  · decide
  · decide
  · refine ⟨trivial, trivial, fun _ _ => ?_, trivial, trivial⟩
    decide
  · decide

/-- It can ask for the identifiers of root all the same, and then signals the
first process; and an object of root that is open to all is open to it. -/
theorem user_becomes_root : ((run step .start userEvents).credentials 2).Unprivileged ∧
    linuxKillPermission (run step .start userEvents) 2 1 = some .eperm ∧
    linuxKillPermission (run step .start (userEvents ++ [.set 2 (.setuid 0)])) 2 1 = none ∧
    linuxShmCheckOpenPermissions (run step .start userEvents) 2
      { mode := 0o666, uid := 0, gid := 0, size := 0, linkCount := 1 } Files.linuxORdwr = none := by
  decide

end Smros.Credentials
