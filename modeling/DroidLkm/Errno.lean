/-
  The kernel's error numbers, as far as the modelled functions return them.
-/
import Mathlib.Data.Int.Notation

namespace DroidLkm

def EPERM : ℤ := 1
def EINTR : ℤ := 4
def ENOENT : ℤ := 2
def EIO : ℤ := 5
def E2BIG : ℤ := 7
def EBADF : ℤ := 9
def EAGAIN : ℤ := 11
def ENOMEM : ℤ := 12
def EACCES : ℤ := 13
def EFAULT : ℤ := 14
def EBUSY : ℤ := 16
def EEXIST : ℤ := 17
def ENODEV : ℤ := 19
def ENOTDIR : ℤ := 20
def EINVAL : ℤ := 22
def EMFILE : ℤ := 24
def EFBIG : ℤ := 27
def ENOSPC : ℤ := 28
def ERANGE : ℤ := 34
def ENAMETOOLONG : ℤ := 36
def ENOSYS : ℤ := 38
def ENOTEMPTY : ℤ := 39
def ENOMSG : ℤ := 42
def EIDRM : ℤ := 43
def ENODATA : ℤ := 61
def EOVERFLOW : ℤ := 75
def EMSGSIZE : ℤ := 90
def EOPNOTSUPP : ℤ := 95
def ETIMEDOUT : ℤ := 110
def ERESTARTSYS : ℤ := 512
def ERESTARTNOHAND : ℤ := 514

end DroidLkm
