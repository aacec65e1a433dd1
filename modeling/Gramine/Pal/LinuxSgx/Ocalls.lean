import Gramine.Common.Errno
import Gramine.Pal.LinuxSgx.UntrustedCopy

/-!
# The ocall wrappers that bring host results into the enclave

Each wrapper of `enclave_ocalls.c` lays out its arguments on the untrusted
stack (`sgx_alloc_on_ustack_aligned`), exits to the host, and brings back what
the host answered: it filters error numbers, checks lengths, and copies
untrusted buffers in with `sgx_copy_to_enclave`. This module models
`ocall_read`, `ocall_pread`, `ocall_accept`, `ocall_connect_simple`,
`ocall_recv`, `ocall_poll` and `ocall_sched_getaffinity`.

The host's answer to an exit is its return value, all of untrusted memory
afterwards, and the length fields of the argument struct as it left them. An
exit leaves enclave memory as it was. What a wrapper writes to untrusted
memory before it exits (the arguments, copies of enclave buffers) is not
modelled: the host reads it and may overwrite all of untrusted memory before it
answers. A `-EINTR` retry loop asks the host again, at most `fuel` times.
`ocall_mmap_untrusted_cache`, which gives a buffer too large for the untrusted
stack, returns what the host chooses: a result and an address. A pointer that
may be `NULL` is an `Option`, and so is the length behind it; an
out-parameter is returned as the caller's variable afterwards. `ustack` is the
untrusted stack pointer after `sgx_prepare_ustack`, which the wrappers restore
on return.
-/

namespace Gramine.Pal.LinuxSgx

open ByteCopy

/-- `MAX_UNTRUSTED_STACK_BUF`: a quarter of the 2 MB `THREAD_STACK_SIZE`. -/
def MAX_UNTRUSTED_STACK_BUF : Nat := 4096 * 512 / 4

/-- `MSG_TRUNC`. -/
def MSG_TRUNC : Nat := 0x20

/-- `sizeof(struct sockaddr_storage)`. -/
def SOCKADDR_STORAGE_SIZE : Nat := 128

/-- `sizeof(struct pollfd)`. -/
def POLLFD_SIZE : Nat := 8

/-- `sizeof(unsigned long)`, the element of a CPU mask. -/
def LONG_SIZE : Nat := 8

/-- A product or a sum computed in `size_t`. -/
def sizeT (n : Nat) : Nat := n % 2 ^ 64

/-- `sgx_alloc_on_ustack_aligned(size, alignment)`: the untrusted stack grows
down by `size`, aligned down, and is `NULL` unless the result is valid
untrusted memory; the new stack pointer is the address returned. -/
def sgxAllocOnUstackAligned (enclave : EnclaveRange) (ustack size alignment : Nat) : Option Nat :=
  let addr := alignDown (((ustack : Int) - size) % 2 ^ 64).toNat alignment
  if sgxIsValidUntrustedPtr enclave addr size alignment then some addr else none

/-- `sgx_copy_to_ustack(ptr, size)`: only a buffer inside the enclave goes out. -/
def sgxCopyToUstack (enclave : EnclaveRange) (ustack ptr size : Nat) : Option Nat :=
  if sgxIsCompletelyWithinEnclave enclave ptr size then sgxAllocOnUstackAligned enclave ustack size 1 else none

/-- `sgx_copy_to_enclave(ptr, maxsize, uptr, usize)`. -/
def sgxCopyToEnclave (enclave : EnclaveRange) (m : CopyMachine) (ptr maxsize uptr usize : Nat) :
    Option CopyMachine :=
  if maxsize < usize || !sgxIsValidUntrustedPtr enclave uptr usize 1 ||
      !sgxIsCompletelyWithinEnclave enclave ptr maxsize then none
  else some (sgxCopyToEnclaveVerified m ptr uptr usize)

/-- The host's answer to one exit. -/
structure OcallAnswer where
  retval : Int
  untrusted : Nat → UInt8
  addrlen : Nat
  localAddrlen : Nat
  controllen : Nat
  timeoutUs : Nat

/-- The host during one call of a wrapper: its answer to each exit, and what
`ocall_mmap_untrusted_cache(size, &addr, ...)` returns and leaves in `addr`. -/
structure OcallHost where
  answer : Nat → OcallAnswer
  untrustedCache : Nat → Int × Nat

/-- An exit: enclave memory stays, untrusted memory is what the host left. -/
def ocallExit (enclave : EnclaveRange) (ans : OcallAnswer) (m : CopyMachine) : CopyMachine :=
  { m with mem := fun a => if enclave.base ≤ a ∧ a < enclave.top then m.mem a else ans.untrusted a }

/-- `do { ret = sgx_exitless_ocall(...); } while (ret == -EINTR);` from the
exit numbered `call`: the answer that ends the loop, and the memory then. -/
def ocallRetryEintr (enclave : EnclaveRange) (answer : Nat → OcallAnswer) :
    Nat → Nat → CopyMachine → Option (OcallAnswer × CopyMachine)
  | 0, _, _ => none
  | fuel + 1, call, m =>
    let m := ocallExit enclave (answer call) m
    if (answer call).retval = -EINTR then ocallRetryEintr enclave answer fuel (call + 1) m
    else some (answer call, m)

/-- The errno filter of the wrappers: a negative result that `allowed` does not
list becomes `-EPERM`. -/
def filterErrno (allowed : List Int) (retval : Int) : Int :=
  if retval < 0 ∧ retval ∉ allowed then -EPERM else retval

def readErrnos : List Int := [-EAGAIN, -EWOULDBLOCK, -EBADF, -EINTR, -EINVAL, - EIO, -EISDIR]

def preadErrnos : List Int :=
  [-EAGAIN, -EWOULDBLOCK, -EBADF, -EINTR, -EINVAL, - EIO, -EISDIR, - ENXIO, -EOVERFLOW, -ESPIPE]

def acceptErrnos : List Int :=
  [-EAGAIN, -EWOULDBLOCK, -EBADF, -ECONNABORTED, -EINTR, -EINVAL, -EMFILE, -ENFILE, -ENOMEM, -ENOBUFS,
    -ENOTSOCK, -EPROTO, -EPERM, -ENOPROTOOPT]

def connectSimpleErrnos : List Int :=
  [-EACCES, -EPERM, -EADDRINUSE, -EADDRNOTAVAIL, -EAFNOSUPPORT, -EAGAIN, -EALREADY, -EBADF, -ECONNREFUSED,
    -EISCONN, -ENETUNREACH, -ENOTSOCK, -EPROTOTYPE, -ETIMEDOUT]

def recvErrnos : List Int :=
  [-EAGAIN, -EWOULDBLOCK, -EBADF, -ECONNREFUSED, -ECONNRESET, -EINTR, -EINVAL, -ENOMEM, -ENOTCONN, -ENOTSOCK]

def pollErrnos : List Int := [-EINTR, -EINVAL, -ENOMEM]

def schedGetaffinityErrnos : List Int := [-EINVAL, -EPERM, -ESRCH]

/-! ## `ocall_read` and `ocall_pread` -/

/-- The untrusted buffer of `count` bytes: on the untrusted stack, or from
`ocall_mmap_untrusted_cache(ALLOC_ALIGN_UP(count))` when larger than
`MAX_UNTRUSTED_STACK_BUF`; with the stack pointer after it. -/
def untrustedBuffer (enclave : EnclaveRange) (host : OcallHost) (ustack count : Nat) : Except Int (Nat × Nat) :=
  if MAX_UNTRUSTED_STACK_BUF < count then
    let (ret, obuf) := host.untrustedCache (alignUp count PAGE_SIZE)
    if ret < 0 then .error ret else .ok (obuf, ustack)
  else
    match sgxAllocOnUstackAligned enclave ustack count 1 with
    | none => .error (-EPERM)
    | some ubuf => .ok (ubuf, ubuf)

/-- The body `ocall_read` and `ocall_pread` share, with the errnos the wrapper
lets through and the size of its argument struct. -/
def readIntoEnclave (allowed : List Int) (argsSize : Nat) (enclave : EnclaveRange) (host : OcallHost)
    (ustack : Nat) (m : CopyMachine) (buf count : Nat) : Int × CopyMachine :=
  match untrustedBuffer enclave host ustack count with
  | .error ret => (ret, m)
  | .ok (ubuf, ustack) =>
    if (sgxAllocOnUstackAligned enclave ustack argsSize 8).isNone then (-EPERM, m)
    else
      let ans := host.answer 0
      let m := ocallExit enclave ans m
      let retval := filterErrno allowed ans.retval
      if 0 < retval then
        if count < retval.toNat then (-EPERM, m)
        else
          match sgxCopyToEnclave enclave m buf count ubuf retval.toNat with
          | none => (-EPERM, m)
          | some m => (retval, m)
      else (retval, m)

/-- `ocall_read(fd, buf, count)`. -/
def ocallRead (enclave : EnclaveRange) (host : OcallHost) (ustack : Nat) (m : CopyMachine) (buf count : Nat) :
    Int × CopyMachine :=
  readIntoEnclave readErrnos 24 enclave host ustack m buf count

/-- `ocall_pread(fd, buf, count, offset)`. -/
def ocallPread (enclave : EnclaveRange) (host : OcallHost) (ustack : Nat) (m : CopyMachine) (buf count : Nat) :
    Int × CopyMachine :=
  readIntoEnclave preadErrnos 32 enclave host ustack m buf count

/-! ## Socket addresses -/

/-- `(ptr && len) ? sgx_copy_to_ustack(ptr, len) : NULL`, which fails when the
copy does: the untrusted address, if any, and the stack pointer after it. -/
def copyToUstackIfAny (enclave : EnclaveRange) (ustack : Nat) (ptr : Option Nat) (len : Nat) :
    Option (Option Nat × Nat) :=
  match ptr with
  | some p => if len = 0 then some (none, ustack) else (sgxCopyToUstack enclave ustack p len).map fun u => (some u, u)
  | none => some (none, ustack)

/-- `ptr ? sgx_alloc_on_ustack_aligned(len, 1) : NULL`, which fails when the
allocation does. -/
def allocOnUstackIfAny (enclave : EnclaveRange) (ustack : Nat) (ptr : Option Nat) (len : Nat) :
    Option (Option Nat × Nat) :=
  match ptr with
  | some _ => (sgxAllocOnUstackAligned enclave ustack len 1).map fun u => (some u, u)
  | none => some (none, ustack)

/-- `if (ptr && len) { ulen = COPY_UNTRUSTED_VALUE(...); if (!sgx_copy_to_enclave(ptr, len, uptr, ulen)) fail;
*lenptr = ulen; }`: the machine after, and the length stored, if one was. -/
def copyBackIfAny (enclave : EnclaveRange) (m : CopyMachine) (ptr : Option Nat) (len : Nat) (uptr : Option Nat)
    (ulen : Nat) : Option (CopyMachine × Option Nat) :=
  match ptr with
  | some p =>
    if len = 0 then some (m, none) else (sgxCopyToEnclave enclave m p len (uptr.getD 0) ulen).map fun m => (m, some ulen)
  | none => some (m, none)

/-- What `ocall_accept` returns and leaves in `*addrlen` and `*local_addrlen`. -/
structure AcceptOut where
  retval : Int
  machine : CopyMachine
  addrlen : Option Nat
  localAddrlen : Option Nat

/-- The argument struct of `ocall_accept` and the two addresses on the untrusted stack. -/
def acceptUntrusted (enclave : EnclaveRange) (ustack : Nat) (addr : Option Nat) (len : Nat) (localAddr : Option Nat)
    (localLen : Nat) : Option (Option Nat × Option Nat) := do
  let ustack ← sgxAllocOnUstackAligned enclave ustack 40 8
  let (untrustedAddr, ustack) ← copyToUstackIfAny enclave ustack addr len
  let (untrustedLocalAddr, _) ← copyToUstackIfAny enclave ustack localAddr localLen
  return (untrustedAddr, untrustedLocalAddr)

/-- `ocall_accept(sockfd, addr, addrlen, local_addr, local_addrlen, options)`. -/
def ocallAccept (enclave : EnclaveRange) (host : OcallHost) (ustack : Nat) (m : CopyMachine)
    (addr addrlen localAddr localAddrlen : Option Nat) : AcceptOut :=
  let len := addrlen.getD 0
  let localLen := localAddrlen.getD 0
  match acceptUntrusted enclave ustack addr len localAddr localLen with
  | none => ⟨-EPERM, m, addrlen, localAddrlen⟩
  | some (untrustedAddr, untrustedLocalAddr) =>
    let ans := host.answer 0
    let m := ocallExit enclave ans m
    let retval := filterErrno acceptErrnos ans.retval
    if retval < 0 then ⟨retval, m, addrlen, localAddrlen⟩
    else
      match copyBackIfAny enclave m addr len untrustedAddr ans.addrlen with
      | none => ⟨-EPERM, m, addrlen, localAddrlen⟩
      | some (m, stored) =>
        match copyBackIfAny enclave m localAddr localLen untrustedLocalAddr ans.localAddrlen with
        | none => ⟨-EPERM, m, stored.or addrlen, localAddrlen⟩
        | some (m, storedLocal) => ⟨retval, m, stored.or addrlen, storedLocal.or localAddrlen⟩

/-- What `ocall_connect_simple` returns and leaves in `*addrlen` and
`*out_inprogress`, written only on success. -/
structure ConnectSimpleOut where
  retval : Int
  machine : CopyMachine
  addrlen : Nat
  inprogress : Option Bool

/-- The end of `ocall_connect_simple` once the host's result `ret` is known
(`0` with `inprogress` for `-EINPROGRESS`): the errno filter, the check of the
returned length against `sizeof(*addr)`, and the copy of the local address. -/
def connectSimpleFinish (enclave : EnclaveRange) (m : CopyMachine) (addr addrlen untrustedAddr : Nat)
    (ans : OcallAnswer) (ret : Int) (inprogress : Bool) : ConnectSimpleOut :=
  if ret < 0 then ⟨filterErrno connectSimpleErrnos ret, m, addrlen, none⟩
  else if SOCKADDR_STORAGE_SIZE < ans.addrlen then ⟨-EPERM, m, addrlen, none⟩
  else
    match sgxCopyToEnclave enclave m addr SOCKADDR_STORAGE_SIZE untrustedAddr ans.addrlen with
    | none => ⟨-EPERM, m, addrlen, none⟩
    | some m => ⟨0, m, ans.addrlen, some inprogress⟩

/-- `ocall_connect_simple(fd, nonblocking, addr, addrlen, out_inprogress)`,
where `addr` is a `struct sockaddr_storage`. -/
def ocallConnectSimple (enclave : EnclaveRange) (host : OcallHost) (ustack : Nat) (m : CopyMachine) (fuel : Nat)
    (nonblocking : Bool) (addr addrlen : Nat) : Option ConnectSimpleOut :=
  match sgxAllocOnUstackAligned enclave ustack 24 8 with
  | none => some ⟨-EPERM, m, addrlen, none⟩
  | some ustack =>
    match sgxAllocOnUstackAligned enclave ustack SOCKADDR_STORAGE_SIZE 8 with
    | none => some ⟨-EPERM, m, addrlen, none⟩
    | some untrustedAddr =>
      (ocallRetryEintr enclave host.answer fuel 0 m).map fun (ans, m) =>
        -- EINPROGRESS is success with a flag, and only for a non-blocking socket
        if ans.retval = -EINPROGRESS then
          if nonblocking then connectSimpleFinish enclave m addr addrlen untrustedAddr ans 0 true
          else ⟨-EPERM, m, addrlen, none⟩
        else connectSimpleFinish enclave m addr addrlen untrustedAddr ans ans.retval false

/-! ## `ocall_recv` -/

/-- What `ocall_recv` returns and leaves in `*addrlenptr` and `*controllenptr`. -/
structure RecvOut where
  retval : Int
  machine : CopyMachine
  addrlen : Option Nat
  controllen : Option Nat

/-- The scatter loop of `ocall_recv`: `data_size` bytes from `obuf` over the
iovecs `(iov_base, iov_len)`, from the host index `hostBufIdx` on; `false` when
a copy fails, with the iovecs before it written. -/
def recvScatter (enclave : EnclaveRange) (obuf dataSize : Nat) :
    List (Nat × Nat) → Nat → CopyMachine → CopyMachine × Bool
  | [], _, m => (m, true)
  | (base, len) :: iov, hostBufIdx, m =>
    if hostBufIdx < dataSize then
      let thisSize := min (dataSize - hostBufIdx) len
      match sgxCopyToEnclave enclave m base len (obuf + hostBufIdx) thisSize with
      | none => (m, false)
      | some m => recvScatter enclave obuf dataSize iov (hostBufIdx + thisSize) m
    else (m, true)

/-- The data buffer of `ocall_recv`: on the untrusted stack, or from the
untrusted cache when the data, address and control together exceed
`MAX_UNTRUSTED_STACK_BUF`; with the stack pointer after it. -/
def recvBuffer (enclave : EnclaveRange) (host : OcallHost) (ustack size addrlen controllen : Nat) :
    Except Int (Nat × Nat) :=
  if MAX_UNTRUSTED_STACK_BUF < sizeT (size + addrlen + controllen) then
    let (ret, obuf) := host.untrustedCache (alignUp size PAGE_SIZE)
    if ret < 0 then .error ret else .ok (obuf, ustack)
  else
    match sgxAllocOnUstackAligned enclave ustack size 1 with
    | none => .error (-EPERM)
    | some obuf => .ok (obuf, obuf)

/-- The argument struct of `ocall_recv` and room for the address and the control data. -/
def recvUntrusted (enclave : EnclaveRange) (ustack : Nat) (addr : Option Nat) (addrlen : Nat) (control : Option Nat)
    (controllen : Nat) : Option (Option Nat × Option Nat) := do
  let ustack ← sgxAllocOnUstackAligned enclave ustack 64 8
  let (untrustedAddr, ustack) ← allocOnUstackIfAny enclave ustack addr addrlen
  let (untrustedControl, _) ← allocOnUstackIfAny enclave ustack control controllen
  return (untrustedAddr, untrustedControl)

/-- `ocall_recv(sockfd, iov, iov_len, addr, addrlenptr, control, controllenptr, flags)`. -/
def ocallRecv (enclave : EnclaveRange) (host : OcallHost) (ustack : Nat) (m : CopyMachine) (iov : List (Nat × Nat))
    (addr addrlenptr control controllenptr : Option Nat) (flags : Nat) : RecvOut :=
  let addrlen := addrlenptr.getD 0
  let controllen := controllenptr.getD 0
  -- the total of the iovec lengths, summed in `size_t` without an overflow check
  let size := sizeT (iov.map Prod.snd).sum
  match recvBuffer enclave host ustack size addrlen controllen with
  | .error ret => ⟨ret, m, addrlenptr, controllenptr⟩
  | .ok (obuf, ustack) =>
    match recvUntrusted enclave ustack addr addrlen control controllen with
    | none => ⟨-EPERM, m, addrlenptr, controllenptr⟩
    | some (untrustedAddr, untrustedControl) =>
      let ans := host.answer 0
      let m := ocallExit enclave ans m
      if ans.retval < 0 then ⟨filterErrno recvErrnos ans.retval, m, addrlenptr, controllenptr⟩
      else if (flags &&& MSG_TRUNC = 0 ∧ size < ans.retval.toNat) ∨
          (flags &&& MSG_TRUNC ≠ 0 ∧ 2 ^ 48 ≤ ans.retval.toNat) then
        ⟨-EPERM, m, addrlenptr, controllenptr⟩
      else
        match copyBackIfAny enclave m addr addrlen untrustedAddr ans.addrlen with
        | none => ⟨-EPERM, m, addrlenptr, controllenptr⟩
        | some (m, storedAddrlen) =>
          match copyBackIfAny enclave m control controllen untrustedControl ans.controllen with
          | none => ⟨-EPERM, m, storedAddrlen.or addrlenptr, controllenptr⟩
          | some (m, storedControllen) =>
            match recvScatter enclave obuf (min size ans.retval.toNat) iov 0 m with
            | (m, false) => ⟨-EPERM, m, storedAddrlen.or addrlenptr, storedControllen.or controllenptr⟩
            | (m, true) => ⟨ans.retval, m, storedAddrlen.or addrlenptr, storedControllen.or controllenptr⟩

/-! ## `ocall_poll` and `ocall_sched_getaffinity` -/

/-- What `ocall_poll` returns and leaves in `*timeout_us`. -/
structure PollOut where
  retval : Int
  machine : CopyMachine
  timeoutUs : Option Nat

/-- `ocall_poll(fds, nfds, timeout_us)`. -/
def ocallPoll (enclave : EnclaveRange) (host : OcallHost) (ustack : Nat) (m : CopyMachine) (fds nfds : Nat)
    (timeoutUs : Option Nat) : PollOut :=
  let nfdsBytes := sizeT (nfds * POLLFD_SIZE)
  match sgxAllocOnUstackAligned enclave ustack 24 8 with
  | none => ⟨-EPERM, m, timeoutUs⟩
  | some ustack =>
    match sgxCopyToUstack enclave ustack fds nfdsBytes with
    | none => ⟨-EPERM, m, timeoutUs⟩
    | some untrustedFds =>
      let ans := host.answer 0
      let m := ocallExit enclave ans m
      let remaining := timeoutUs.map fun t => min (if ans.retval = 0 then 0 else ans.timeoutUs) t
      let retval := filterErrno pollErrnos ans.retval
      if retval < 0 then ⟨retval, m, remaining⟩
      else if nfds < retval.toNat then ⟨-EPERM, m, remaining⟩
      else
        match sgxCopyToEnclave enclave m fds nfdsBytes untrustedFds nfdsBytes with
        | none => ⟨-EPERM, m, remaining⟩
        | some m => ⟨retval, m, remaining⟩

/-- The 64-bit little-endian word at `addr`. -/
def wordAt (mem : Nat → UInt8) (addr : Nat) : Nat :=
  (List.range 8).foldr (fun k word => (mem (addr + k)).toNat + 256 * word) 0

/-- `BITS_TO_LONGS(nr)`. -/
def BITS_TO_LONGS (nr : Nat) : Nat := (nr + 63) / 64

/-- `SET_HIGHEST_N_BITS(unsigned long, nbits)`. -/
def SET_HIGHEST_N_BITS (nbits : Nat) : Nat := if nbits = 0 then 0 else 2 ^ 64 - 2 ^ (64 - nbits)

/-- `is_cpumask_valid(cpu_mask, cpu_mask_len)` for `threads_cnt` possible
threads: no bit set above the last thread. -/
def isCpumaskValid (threadsCnt : Nat) (mem : Nat → UInt8) (cpuMask cpuMaskLen : Nat) : Bool :=
  let maxBitmaskLen := BITS_TO_LONGS threadsCnt
  if cpuMaskLen < maxBitmaskLen then true
  else
    let invalidBitsCount := maxBitmaskLen * 64 - threadsCnt
    if wordAt mem (cpuMask + (maxBitmaskLen - 1) * LONG_SIZE) &&& SET_HIGHEST_N_BITS invalidBitsCount ≠ 0 then false
    else (List.range' maxBitmaskLen (cpuMaskLen - maxBitmaskLen)).all fun i => wordAt mem (cpuMask + i * LONG_SIZE) = 0

/-- `ocall_sched_getaffinity(tcs, cpu_mask, cpu_mask_len)`. -/
def ocallSchedGetaffinity (enclave : EnclaveRange) (host : OcallHost) (ustack : Nat) (m : CopyMachine)
    (fuel threadsCnt cpuMask cpuMaskLen : Nat) : Option (Int × CopyMachine) :=
  match sgxAllocOnUstackAligned enclave ustack 24 8 with
  | none => some (-EPERM, m)
  | some ustack =>
    let cpuMaskSize := sizeT (cpuMaskLen * LONG_SIZE)
    match sgxAllocOnUstackAligned enclave ustack cpuMaskSize 8 with
    | none => some (-EPERM, m)
    | some untrustedCpuMask =>
      (ocallRetryEintr enclave host.answer fuel 0 m).map fun (ans, m) =>
        if ans.retval < 0 then (filterErrno schedGetaffinityErrnos ans.retval, m)
        else if ans.retval.toNat % LONG_SIZE ≠ 0 then (-EPERM, m)
        else
          match sgxCopyToEnclave enclave m cpuMask cpuMaskSize untrustedCpuMask ans.retval.toNat with
          | none => (-EPERM, m)
          | some m =>
            if isCpumaskValid threadsCnt m.mem cpuMask (ans.retval.toNat / LONG_SIZE) then (0, m) else (-EPERM, m)

attribute [grind] ocallExit filterErrno copyBackIfAny recvScatter

end Gramine.Pal.LinuxSgx
