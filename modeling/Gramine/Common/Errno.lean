/-!
# Linux error numbers

The values of `linux_abi/errors_arch.h` that the modelled functions return,
negated, as Linux system calls and Gramine's LibOS do, and `ERESTARTSYS` of
`linux_abi/errors.h`, which a system call returns to be restarted.
-/

namespace Gramine

def EPERM : Int := 1
def ENOENT : Int := 2
def ESRCH : Int := 3
def EINTR : Int := 4
def EIO : Int := 5
def ENXIO : Int := 6
def EBADF : Int := 9
def ECHILD : Int := 10
def EAGAIN : Int := 11
def EWOULDBLOCK : Int := EAGAIN
def ENOMEM : Int := 12
def EACCES : Int := 13
def EFAULT : Int := 14
def EEXIST : Int := 17
def ENOTDIR : Int := 20
def EISDIR : Int := 21
def EINVAL : Int := 22
def ENFILE : Int := 23
def EMFILE : Int := 24
def EFBIG : Int := 27
def ESPIPE : Int := 29
def ENOSYS : Int := 38
def ENODATA : Int := 61
def EPROTO : Int := 71
def EOVERFLOW : Int := 75
def ENOTSOCK : Int := 88
def EPROTOTYPE : Int := 91
def ENOPROTOOPT : Int := 92
def EOPNOTSUPP : Int := 95
def EAFNOSUPPORT : Int := 97
def EADDRINUSE : Int := 98
def EADDRNOTAVAIL : Int := 99
def ENETUNREACH : Int := 101
def ECONNABORTED : Int := 103
def ECONNRESET : Int := 104
def ENOBUFS : Int := 105
def EISCONN : Int := 106
def ENOTCONN : Int := 107
def ETIMEDOUT : Int := 110
def ECONNREFUSED : Int := 111
def EALREADY : Int := 114
def EINPROGRESS : Int := 115
def ERESTARTSYS : Int := 512
def ERESTARTNOHAND : Int := 514

attribute [grind] EPERM EINTR

end Gramine
