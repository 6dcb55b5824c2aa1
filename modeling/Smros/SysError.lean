import Mathlib.Init

/-!
# System-call errors
-/

namespace Smros
/-- The error numbers that the modelled functions return. -/
inductive SysError where
  | enoent
  | esrch
  | echild
  | eintr
  | eio
  | eperm
  | ebadf
  | eagain
  | enomem
  | eacces
  | efault
  | ebusy
  | eexist
  | enodev
  | enotdir
  | eisdir
  | einval
  | emfile
  | enametoolong
  | enolck
  | eoverflow
  | etimedout
  deriving DecidableEq

end Smros
