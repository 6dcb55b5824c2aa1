import Smros.Files.Syscalls
import Smros.Lib.Runs

/-!
# User and group identifiers of processes

The calls that set identifiers, their inheritance by a fork, and the two places
where they are checked: signals to other processes and the objects of
`/dev/shm/`.  A process without a record has the identifiers of root.
-/

namespace Smros.Credentials
open Lib

structure LinuxCredentialsCore where
  realUid : Nat
  effectiveUid : Nat
  savedUid : Nat
  filesystemUid : Nat
  realGid : Nat
  effectiveGid : Nat
  savedGid : Nat
  filesystemGid : Nat
  deriving DecidableEq

namespace LinuxCredentialsCore
/-- `Default`: root everywhere. -/
def root : LinuxCredentialsCore := ⟨0, 0, 0, 0, 0, 0, 0, 0⟩

variable (credentials : LinuxCredentialsCore)

def forkChild : LinuxCredentialsCore := credentials

def setResuid (real effective saved : Nat) : LinuxCredentialsCore :=
  { credentials with
    realUid := real
    effectiveUid := effective
    savedUid := saved
    filesystemUid := effective }

def setResgid (real effective saved : Nat) : LinuxCredentialsCore :=
  { credentials with
    realGid := real
    effectiveGid := effective
    savedGid := saved
    filesystemGid := effective }

def setFilesystemUid (uid : Nat) : LinuxCredentialsCore := { credentials with filesystemUid := uid }

def setFilesystemGid (gid : Nat) : LinuxCredentialsCore := { credentials with filesystemGid := gid }

end LinuxCredentialsCore

/-- `u32::MAX` and `usize::MAX`, which leave an identifier as it is. -/
def unchangedId (requested : Nat) : Bool := requested = 2 ^ 32 - 1 || requested = 2 ^ 64 - 1

def linuxIdOrCurrent (requested current : Nat) : Nat :=
  if unchangedId requested then current else requested

/-! ## The calls -/

section
variable (credentials : LinuxCredentialsCore)

def sysSetuid (uid : Nat) : LinuxCredentialsCore := credentials.setResuid uid uid uid

def sysSetgid (gid : Nat) : LinuxCredentialsCore := credentials.setResgid gid gid gid

def sysSetreuid (ruid euid : Nat) : LinuxCredentialsCore :=
  let real := linuxIdOrCurrent ruid credentials.realUid
  let effective := linuxIdOrCurrent euid credentials.effectiveUid
  credentials.setResuid real effective effective

def sysSetregid (rgid egid : Nat) : LinuxCredentialsCore :=
  let real := linuxIdOrCurrent rgid credentials.realGid
  let effective := linuxIdOrCurrent egid credentials.effectiveGid
  credentials.setResgid real effective effective

def sysSetresuid (ruid euid suid : Nat) : LinuxCredentialsCore :=
  credentials.setResuid (linuxIdOrCurrent ruid credentials.realUid)
    (linuxIdOrCurrent euid credentials.effectiveUid)
    (linuxIdOrCurrent suid credentials.savedUid)

def sysSetresgid (rgid egid sgid : Nat) : LinuxCredentialsCore :=
  credentials.setResgid (linuxIdOrCurrent rgid credentials.realGid)
    (linuxIdOrCurrent egid credentials.effectiveGid)
    (linuxIdOrCurrent sgid credentials.savedGid)

def sysSetfsuid (uid : Nat) : LinuxCredentialsCore := credentials.setFilesystemUid uid

def sysSetfsgid (gid : Nat) : LinuxCredentialsCore := credentials.setFilesystemGid gid

end

inductive IdCall where
  | setuid (uid : Nat)
  | setgid (gid : Nat)
  | setreuid (ruid euid : Nat)
  | setregid (rgid egid : Nat)
  | setresuid (ruid euid suid : Nat)
  | setresgid (rgid egid sgid : Nat)
  | setfsuid (uid : Nat)
  | setfsgid (gid : Nat)
  deriving DecidableEq

/-- The identifiers that a call leaves. -/
def IdCall.serve (call : IdCall) (credentials : LinuxCredentialsCore) : LinuxCredentialsCore :=
  match call with
  | .setuid uid => sysSetuid credentials uid
  | .setgid gid => sysSetgid credentials gid
  | .setreuid ruid euid => sysSetreuid credentials ruid euid
  | .setregid rgid egid => sysSetregid credentials rgid egid
  | .setresuid ruid euid suid => sysSetresuid credentials ruid euid suid
  | .setresgid rgid egid sgid => sysSetresgid credentials rgid egid sgid
  | .setfsuid uid => sysSetfsuid credentials uid
  | .setfsgid gid => sysSetfsgid credentials gid

/-! ## Processes -/

structure ProcessCredentials where
  pid : Nat
  credentials : LinuxCredentialsCore
  deriving DecidableEq

/-- The identifiers of the processes, and those that forks in progress carry. -/
structure State where
  processes : List ProcessCredentials
  reservations : List LinuxCredentialsCore
  deriving DecidableEq

namespace State
/-- A kernel with no process. -/
def start : State := ⟨[], []⟩

variable (state : State)

def find (pid : Nat) : Option LinuxCredentialsCore :=
  (state.processes.find? (·.pid = pid)).map (·.credentials)

/-- `unwrap_or_default`. -/
def credentials (pid : Nat) : LinuxCredentialsCore := (state.find pid).getD .root

/-- `process_resources_mut`; a process without a record gets one. -/
def credentialsMut (pid : Nat) (change : LinuxCredentialsCore → LinuxCredentialsCore) : State :=
  { state with
    processes :=
      if (state.find pid).isSome then
        Counted.adjust (·.pid) pid
          (fun process => { process with credentials := change process.credentials })
          state.processes
      else state.processes ++ [⟨pid, change .root⟩] }

/-- `clone_linux_process_state`. -/
def reserve (parentPid : Nat) : State :=
  { state with
    reservations := state.reservations ++ [(state.credentials parentPid).forkChild] }

/-- `install_process_resources`: a reservation becomes the record of the child.
`room` tells whether the process vector has its reserved place still. -/
def commit (index childPid : Nat) (room : Bool) : State :=
  match state.reservations[index]? with
  | none => state
  | some clone =>
    { reservations := state.reservations.eraseIdx index
      processes :=
        if (state.find childPid).isSome ∨ ¬ room then state.processes
        else state.processes ++ [⟨childPid, clone⟩] }

/-- A reservation that is given up. -/
def drop (index : Nat) : State := { state with reservations := state.reservations.eraseIdx index }

def exit (pid : Nat) : State :=
  { state with processes := Counted.without (·.pid) pid state.processes }

end State

/-! ## The checks -/

/-- `LINUX_ROOT_PID`. -/
def linuxRootPid : Nat := 1

def linuxKillPermission (state : State) (senderPid targetPid : Nat) : Option SysError :=
  let sender := state.credentials senderPid
  if sender.effectiveUid = 0 then none
  else if targetPid = linuxRootPid then some .eperm
  else
    let target := state.credentials targetPid
    if sender.realUid = target.realUid ∨ sender.realUid = target.savedUid ∨
        sender.effectiveUid = target.realUid ∨ sender.effectiveUid = target.savedUid then none
    else some .eperm

/-- `linux_shm_check_open_permissions` on an object that is there. -/
def linuxShmCheckOpenPermissions (state : State) (pid : Nat) (attrs : Files.FxfsAttributes)
  (accessMode : Nat) : Option SysError :=
  let credentials := state.credentials pid
  if Files.linuxModeAccessAllowed attrs.mode attrs.uid attrs.gid credentials.effectiveUid
      credentials.effectiveGid (accessMode ≠ Files.linuxOWronly)
      (accessMode ≠ Files.linuxORdonly) then none
  else some .eacces

/-! ## Steps -/

/-- A signal changes no identifiers. -/
inductive Event where
  | set (pid : Nat) (call : IdCall)
  | reserve (parentPid : Nat)
  | commit (index childPid : Nat) (room : Bool)
  | drop (index : Nat)
  | exit (pid : Nat)
  | kill (senderPid targetPid : Nat)
  deriving DecidableEq

def step (state : State) : Event → State
  | .set pid call => state.credentialsMut pid call.serve
  | .reserve parentPid => state.reserve parentPid
  | .commit index childPid room => state.commit index childPid room
  | .drop index => state.drop index
  | .exit pid => state.exit pid
  | .kill _ _ => state

end Smros.Credentials
