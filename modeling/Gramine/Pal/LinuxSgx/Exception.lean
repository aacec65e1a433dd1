import Gramine.Common.X86Cpu

/-!
# The SGX PAL exception handler

`_PalExceptionHandler` (`pal/src/host/linux-sgx/pal_exception.c`) receives the
trusted EXITINFO written by the CPU on an asynchronous enclave exit and the
untrusted event number chosen by the host, and cross-checks the two before any
event reaches the LibOS. The handler is modelled in two stages that mirror the
C code: `crossCheck` is the `if (!trusted_exit_info.valid) ... else switch`
block together with `handle_ud`, and `raiseEvent` is everything after it (the
range check, the no-fault-inside-PAL check and the fault-address selection).

Logging, `FIRST_TIME` warnings and the reset of `g_tsc_hz` have no effect on
where the thread continues and are left out. The two PAL services that
`handle_ud` calls, `_PalCpuIdRetrieve` and `_PalSystemTimeQuery`, are
parameters of the environment: only whether they succeed matters here.
-/

namespace Gramine.Pal.LinuxSgx

open Gramine.Common.Cpu

/-- `enum pal_event`. -/
inductive PalEvent where
  | noEvent
  | arithmeticError
  | memfault
  | illegal
  | quit
  | interrupted
  deriving DecidableEq, Repr

/-- The numeric value of each event, as the untrusted host sends it. -/
def PalEvent.toNat : PalEvent → Nat
  | .noEvent => 0
  | .arithmeticError => 1
  | .memfault => 2
  | .illegal => 3
  | .quit => 4
  | .interrupted => 5

/-- `PAL_EVENT_NUM_BOUND`. -/
def PAL_EVENT_NUM_BOUND : Nat := 6

/-- The exception vectors of `enum sgx_arch_exception_vector`. -/
def SGX_EXCEPTION_VECTOR_DE : Nat := 0
def SGX_EXCEPTION_VECTOR_DB : Nat := 1
def SGX_EXCEPTION_VECTOR_BP : Nat := 3
def SGX_EXCEPTION_VECTOR_BR : Nat := 5
def SGX_EXCEPTION_VECTOR_UD : Nat := 6
def SGX_EXCEPTION_VECTOR_GP : Nat := 13
def SGX_EXCEPTION_VECTOR_PF : Nat := 14
def SGX_EXCEPTION_VECTOR_MF : Nat := 16
def SGX_EXCEPTION_VECTOR_AC : Nat := 17
def SGX_EXCEPTION_VECTOR_XM : Nat := 19
def SGX_EXCEPTION_VECTOR_CP : Nat := 21

/-- `sgx_arch_exit_info_t`: the trusted EXITINFO of the SSA frame. -/
structure SgxExitInfo where
  vector : Nat
  exitType : Nat
  valid : Bool
  deriving DecidableEq, Repr

/-- The all-zero EXITINFO left by `memset(&trusted_exit_info, 0, ...)`. -/
def SgxExitInfo.zero : SgxExitInfo := ⟨0, 0, false⟩

/-- `sgx_arch_exinfo_t`: the faulting address and error code of `#PF`/`#GP`. -/
structure SgxExinfo where
  maddr : UInt64
  errorCodeVal : UInt32
  deriving DecidableEq, Repr

/-- `sgx_cpu_context_t`: the general-purpose registers saved in the SSA. -/
structure SgxCpuContext where
  rax : UInt64
  rcx : UInt64
  rdx : UInt64
  rbx : UInt64
  rsp : UInt64
  rbp : UInt64
  rsi : UInt64
  rdi : UInt64
  r8 : UInt64
  r9 : UInt64
  r10 : UInt64
  r11 : UInt64
  r12 : UInt64
  r13 : UInt64
  r14 : UInt64
  r15 : UInt64
  rflags : UInt64
  rip : UInt64
  deriving DecidableEq, Repr

/-- `PAL_CONTEXT` as filled by `save_pal_context` and the EXITINFO fix-ups. -/
structure PalContext where
  regs : SgxCpuContext
  trapno : Nat
  err : UInt32
  cr2 : UInt64
  deriving DecidableEq, Repr

/-- `save_pal_context`: the registers copied, every other field zeroed. -/
def savePalContext (uc : SgxCpuContext) : PalContext := ⟨uc, 0, 0, 0⟩

/-- What the handler depends on besides its arguments. -/
structure ExceptionEnv where
  /-- `g_pal_linuxsgx_state.memfaults_without_exinfo_allowed`. -/
  memfaultsWithoutExinfoAllowed : Bool
  /-- `TEXT_START` and `TEXT_END` of the PAL binary. -/
  textStart : UInt64
  textEnd : UInt64
  /-- `_PalCpuIdRetrieve(leaf, subleaf, values)`, `none` when it fails. -/
  cpuIdRetrieve : UInt32 → UInt32 → Option (UInt32 × UInt32 × UInt32 × UInt32)
  /-- `_PalSystemTimeQuery(&usec)`, `none` when it fails. -/
  systemTimeQuery : Option UInt64

/-- `ADDR_IN_PAL(addr)`. -/
def addrInPal (env : ExceptionEnv) (addr : UInt64) : Bool :=
  env.textStart < addr && addr < env.textEnd

/-- The instruction bytes `(uint8_t*)uc->rip` in enclave memory. -/
def instrAt (mem : Nat → UInt8) (uc : SgxCpuContext) : InstrBytes :=
  fun i => mem (uc.rip.toNat + i)

/-- A little-endian 64-bit load `*(uint64_t*)addr` from enclave memory. -/
def loadU64 (mem : Nat → UInt8) (addr : UInt64) : UInt64 :=
  (List.range 8).foldr (fun i acc => (acc <<< 8) ||| (mem (addr.toNat + i)).toUInt64) 0

/-- `emulate_rdtsc_and_print_warning`: microseconds split into `rdx:rax`, or
`none` where the C code calls `_PalProcessExit(1)`. -/
def emulateRdtsc (env : ExceptionEnv) (uc : SgxCpuContext) : Option SgxCpuContext :=
  env.systemTimeQuery.map fun (usec : UInt64) =>
    { uc with rdx := (usec >>> 32).toUInt32.toUInt64, rax := usec.toUInt32.toUInt64 }

/-- `emulate_iret_and_print_warning`: pop `rip`, skip `cs`, pop `rflags`, then
load `rsp` from the frame (skipping `ss`). -/
def emulateIret (uc : SgxCpuContext) (mem : Nat → UInt8) : SgxCpuContext :=
  { uc with
    rip := loadU64 mem uc.rsp
    rflags := loadU64 mem (uc.rsp + 16)
    rsp := loadU64 mem (uc.rsp + 24) }

/-- The result of `handle_ud`: emulated (the handler resumes the thread),
not handled with the event to raise, or a process exit from the rdtsc path. -/
inductive UdResult where
  | emulated (uc : SgxCpuContext)
  | notHandled (eventNum : Nat)
  | processExit
  deriving DecidableEq, Repr

/-- Opcode tests of the `if` chain of `handle_ud`. -/
def isCpuid (instr : InstrBytes) : Bool := instr 0 == 0x0f && instr 1 == 0xa2
def isRdtsc (instr : InstrBytes) : Bool := instr 0 == 0x0f && instr 1 == 0x31
def isRdtscp (instr : InstrBytes) : Bool :=
  instr 0 == 0x0f && instr 1 == 0x01 && instr 2 == 0xf9
def isIretq (instr : InstrBytes) : Bool := 0x48 ≤ instr 0 && instr 0 ≤ 0x4f && instr 1 == 0xcf
def isFsGsBase (instr : InstrBytes) : Bool :=
  instr 0 == 0xf3 && (instr 1 &&& ~~~1) == 0x48 && instr 2 == 0x0f && instr 3 == 0xae &&
    instr 4 >>> 6 == 0b11 && (instr 4 >>> 3) &&& 0b111 < 4
def isSyscall (instr : InstrBytes) : Bool := instr 0 == 0x0f && instr 1 == 0x05

/-- `handle_ud`. A failed `_PalCpuIdRetrieve` falls out of the `if` chain to
the final "Unknown or illegal instruction" return. -/
def handleUd (env : ExceptionEnv) (uc : SgxCpuContext) (mem : Nat → UInt8) : UdResult :=
  let instr := instrAt mem uc
  if isCpuid instr then
    match env.cpuIdRetrieve uc.rax.toUInt32 uc.rcx.toUInt32 with
    | some (a, b, c, d) =>
        .emulated { uc with
          rip := uc.rip + 2, rax := a.toUInt64, rbx := b.toUInt64, rcx := c.toUInt64,
          rdx := d.toUInt64 }
    | none => .notHandled PalEvent.illegal.toNat
  else if isRdtsc instr then
    match emulateRdtsc env uc with
    | some uc' => .emulated { uc' with rip := uc.rip + 2 }
    | none => .processExit
  else if isRdtscp instr then
    match emulateRdtsc env uc with
    | some uc' => .emulated { uc' with rip := uc.rip + 3, rcx := 0 }
    | none => .processExit
  else if isIretq instr then .emulated (emulateIret uc mem)
  else if isFsGsBase instr then .notHandled PalEvent.illegal.toNat
  else if isSyscall instr then .notHandled PalEvent.illegal.toNat
  else if isInOut instr && !hasLockPrefix instr then .notHandled PalEvent.memfault.toNat
  else .notHandled PalEvent.illegal.toNat

/-- The outcome of the cross-check block: terminate, resume an emulated
instruction, or go on with `event_num`, the (possibly zeroed) EXITINFO and
`is_synthetic_gp`. -/
inductive CrossCheck where
  | terminate
  | emulated (uc : SgxCpuContext)
  | event (eventNum : Nat) (exitInfo : SgxExitInfo) (isSyntheticGp : Bool)
  deriving DecidableEq, Repr

/-- The cross-check of trusted EXITINFO against the untrusted event, the
table at the top of `_PalExceptionHandler`. -/
def crossCheck (env : ExceptionEnv) (info : SgxExitInfo) (untrustedExternalEvent : Nat)
    (uc : SgxCpuContext) (mem : Nat → UInt8) : CrossCheck :=
  if !info.valid then
    -- last column of the table: only asynchronous host events are believed
    if untrustedExternalEvent ≠ PalEvent.quit.toNat
        ∧ untrustedExternalEvent ≠ PalEvent.interrupted.toNat then
      if untrustedExternalEvent = PalEvent.memfault.toNat
          ∧ env.memfaultsWithoutExinfoAllowed = true then
        .event untrustedExternalEvent SgxExitInfo.zero false
      else .terminate
    else .event untrustedExternalEvent info false
  else if info.vector = SGX_EXCEPTION_VECTOR_UD then
    if untrustedExternalEvent ≠ PalEvent.illegal.toNat then .terminate
    else
      match handleUd env uc mem with
      | .emulated uc' => .emulated uc'
      | .processExit => .terminate
      | .notHandled eventNum => .event eventNum info (eventNum = PalEvent.memfault.toNat)
  else if info.vector = SGX_EXCEPTION_VECTOR_DE ∨ info.vector = SGX_EXCEPTION_VECTOR_MF
      ∨ info.vector = SGX_EXCEPTION_VECTOR_XM then
    if untrustedExternalEvent ≠ PalEvent.arithmeticError.toNat then .terminate
    else .event PalEvent.arithmeticError.toNat info false
  else if info.vector = SGX_EXCEPTION_VECTOR_PF
      ∧ (untrustedExternalEvent = PalEvent.quit.toNat
        ∨ untrustedExternalEvent = PalEvent.interrupted.toNat) then
    -- a benign #PF already resolved by the host: handle the external event
    .event untrustedExternalEvent SgxExitInfo.zero false
  else if info.vector = SGX_EXCEPTION_VECTOR_PF ∨ info.vector = SGX_EXCEPTION_VECTOR_GP
      ∨ info.vector = SGX_EXCEPTION_VECTOR_AC then
    if untrustedExternalEvent ≠ PalEvent.memfault.toNat then .terminate
    else .event PalEvent.memfault.toNat info false
  else .terminate

/-- Where `_PalExceptionHandler` leaves the thread: `_PalProcessExit(1)`,
`restore_sgx_context` after an emulation, or the upcall for `event` with
`ADDR_IN_PAL(uc->rip)`, the fault address and the saved context. -/
inductive HandlerOutcome where
  | processExit
  | resume (uc : SgxCpuContext)
  | upcall (event : Nat) (isInPal : Bool) (addr : UInt64) (ctx : PalContext)
  deriving DecidableEq, Repr

/-- Whether EXINFO carries a hardware fault address: only for a real `#GP` or
`#PF` reported in a valid EXITINFO. -/
def hasHwFaultAddress (info : SgxExitInfo) (isSyntheticGp : Bool) : Bool :=
  info.valid && !isSyntheticGp &&
    (info.vector == SGX_EXCEPTION_VECTOR_GP || info.vector == SGX_EXCEPTION_VECTOR_PF)

/-- The context handed to the upcall: trap number and EXINFO copied in. -/
def exceptionContext (info : SgxExitInfo) (isSyntheticGp : Bool) (uc : SgxCpuContext)
    (exinfo : SgxExinfo) : PalContext :=
  let ctx := savePalContext uc
  if !info.valid then ctx
  else if hasHwFaultAddress info isSyntheticGp then
    { ctx with trapno := info.vector, err := exinfo.errorCodeVal, cr2 := exinfo.maddr }
  else { ctx with trapno := info.vector }

/-- The part of `_PalExceptionHandler` after the cross-check. -/
def raiseEvent (env : ExceptionEnv) (eventNum : Nat) (info : SgxExitInfo)
    (isSyntheticGp : Bool) (uc : SgxCpuContext) (exinfo : SgxExinfo) : HandlerOutcome :=
  if eventNum = 0 ∨ PAL_EVENT_NUM_BOUND ≤ eventNum then .processExit
  else if addrInPal env uc.rip = true ∧ eventNum ≠ PalEvent.quit.toNat
      ∧ eventNum ≠ PalEvent.interrupted.toNat then .processExit
  else
    let ctx := exceptionContext info isSyntheticGp uc exinfo
    if eventNum = PalEvent.illegal.toNat then .upcall eventNum (addrInPal env uc.rip) uc.rip ctx
    else if eventNum = PalEvent.memfault.toNat then
      if !hasHwFaultAddress info isSyntheticGp && !isSyntheticGp
          && !env.memfaultsWithoutExinfoAllowed then .processExit
      else .upcall eventNum (addrInPal env uc.rip) ctx.cr2 ctx
    else .upcall eventNum (addrInPal env uc.rip) 0 ctx

/-- `_PalExceptionHandler`. -/
def palExceptionHandler (env : ExceptionEnv) (info : SgxExitInfo) (untrustedExternalEvent : Nat)
    (uc : SgxCpuContext) (mem : Nat → UInt8) (exinfo : SgxExinfo) : HandlerOutcome :=
  match crossCheck env info untrustedExternalEvent uc mem with
  | .terminate => .processExit
  | .emulated uc' => .resume uc'
  | .event eventNum info' isSyntheticGp => raiseEvent env eventNum info' isSyntheticGp uc exinfo

/-! ## What each stage can do -/

attribute [grind] PalEvent.toNat handleUd crossCheck hasHwFaultAddress raiseEvent
  palExceptionHandler

/-- `handle_ud` leaves an instruction unhandled as an illegal instruction, or
as a memory fault exactly on an unlocked I/O instruction. -/
theorem handleUd_notHandled {env : ExceptionEnv} {uc : SgxCpuContext} {mem : Nat → UInt8}
    {eventNum : Nat} (unhandled : handleUd env uc mem = .notHandled eventNum) :
    eventNum = PalEvent.illegal.toNat ∨
      (eventNum = PalEvent.memfault.toNat ∧ isInOut (instrAt mem uc) = true ∧
        hasLockPrefix (instrAt mem uc) = false) := by
  dsimp only [handleUd] at unhandled
  split_ifs at unhandled with cpuid rdtsc rdtscp iretq fsGsBase syscall inOut
  · -- `cpuid`: only a failed `_PalCpuIdRetrieve` leaves it unhandled
    split at unhandled
    · cases unhandled
    · cases unhandled
      exact .inl rfl
  · split at unhandled <;> cases unhandled
  · split at unhandled <;> cases unhandled
  · cases unhandled
    exact .inl rfl
  · cases unhandled
    exact .inl rfl
  · cases unhandled
    simp only [Bool.and_eq_true, Bool.not_eq_true'] at inOut
    exact .inr ⟨rfl, inOut⟩
  · cases unhandled
    exact .inl rfl

/-- Every emulation resumes after the emulated instruction: two bytes after
`cpuid` and `rdtsc`, three after `rdtscp`, and at the return address of the
`iretq` frame. -/
theorem handleUd_emulated {env : ExceptionEnv} {uc uc' : SgxCpuContext} {mem : Nat → UInt8}
    (emulated : handleUd env uc mem = .emulated uc') :
    (isCpuid (instrAt mem uc) = true ∧ uc'.rip = uc.rip + 2) ∨
      (isRdtsc (instrAt mem uc) = true ∧ uc'.rip = uc.rip + 2) ∨
      (isRdtscp (instrAt mem uc) = true ∧ uc'.rip = uc.rip + 3) ∨
      (isIretq (instrAt mem uc) = true ∧ uc'.rip = loadU64 mem uc.rsp) := by
  dsimp only [handleUd] at emulated
  split_ifs at emulated with cpuid rdtsc rdtscp iretq
  · split at emulated
    · cases emulated
      exact .inl ⟨cpuid, rfl⟩
    · cases emulated
  · split at emulated
    · cases emulated
      exact .inr (.inl ⟨rdtsc, rfl⟩)
    · cases emulated
  · split at emulated
    · cases emulated
      exact .inr (.inr (.inl ⟨rdtscp, rfl⟩))
    · cases emulated
  · cases emulated
    exact .inr (.inr (.inr ⟨iretq, rfl⟩))

/-- The rows of the cross-check table that let an event through, with the
EXITINFO and `is_synthetic_gp` each row passes on. -/
theorem crossCheck_event {env : ExceptionEnv} {info : SgxExitInfo} {untrusted : Nat}
    {uc : SgxCpuContext} {mem : Nat → UInt8} {eventNum : Nat} {info' : SgxExitInfo}
    {isSyntheticGp : Bool}
    (passed : crossCheck env info untrusted uc mem = .event eventNum info' isSyntheticGp) :
    (info.valid = false ∧ (eventNum = PalEvent.quit.toNat ∨ eventNum = PalEvent.interrupted.toNat)
        ∧ info' = info ∧ isSyntheticGp = false) ∨
      (info.valid = false ∧ eventNum = PalEvent.memfault.toNat
        ∧ env.memfaultsWithoutExinfoAllowed = true ∧ info' = SgxExitInfo.zero
        ∧ isSyntheticGp = false) ∨
      (info.valid = true ∧ info.vector = SGX_EXCEPTION_VECTOR_UD
        ∧ untrusted = PalEvent.illegal.toNat ∧ handleUd env uc mem = .notHandled eventNum
        ∧ info' = info ∧ isSyntheticGp = decide (eventNum = PalEvent.memfault.toNat)) ∨
      (info.valid = true ∧ (info.vector = SGX_EXCEPTION_VECTOR_DE
          ∨ info.vector = SGX_EXCEPTION_VECTOR_MF ∨ info.vector = SGX_EXCEPTION_VECTOR_XM)
        ∧ eventNum = PalEvent.arithmeticError.toNat ∧ info' = info ∧ isSyntheticGp = false) ∨
      (info.valid = true ∧ info.vector = SGX_EXCEPTION_VECTOR_PF
        ∧ (eventNum = PalEvent.quit.toNat ∨ eventNum = PalEvent.interrupted.toNat)
        ∧ info' = SgxExitInfo.zero ∧ isSyntheticGp = false) ∨
      (info.valid = true ∧ (info.vector = SGX_EXCEPTION_VECTOR_PF
          ∨ info.vector = SGX_EXCEPTION_VECTOR_GP ∨ info.vector = SGX_EXCEPTION_VECTOR_AC)
        ∧ eventNum = PalEvent.memfault.toNat ∧ info' = info ∧ isSyntheticGp = false) := by
  unfold crossCheck at passed
  split at passed
  · -- invalid EXITINFO
    rename_i invalid
    have invalid : info.valid = false := by simpa using invalid
    split at passed
    · split at passed
      · rename_i memfault
        cases passed
        exact .inr (.inl ⟨invalid, memfault.1, memfault.2, rfl, rfl⟩)
      · cases passed
    · rename_i asynchronous
      cases passed
      exact .inl ⟨invalid, by omega, rfl, rfl⟩
  rename_i valid
  have valid : info.valid = true := by simpa using valid
  split at passed
  · -- #UD
    rename_i ud
    split at passed
    · cases passed
    rename_i illegal
    split at passed
    · cases passed
    · cases passed
    · rename_i eventNum' notHandled
      cases passed
      exact .inr (.inr (.inl ⟨valid, ud, by simpa using illegal, notHandled, rfl, rfl⟩))
  split at passed
  · rename_i arithmetic
    split at passed
    · cases passed
    · cases passed
      exact .inr (.inr (.inr (.inl ⟨valid, arithmetic, rfl, rfl, rfl⟩)))
  split at passed
  · rename_i benign
    cases passed
    exact .inr (.inr (.inr (.inr (.inl ⟨valid, benign.1, benign.2, rfl, rfl⟩))))
  split at passed
  · rename_i memfault
    split at passed
    · cases passed
    · cases passed
      exact .inr (.inr (.inr (.inr (.inr ⟨valid, memfault, rfl, rfl, rfl⟩))))
  · cases passed

/-- An upcall from `raiseEvent` carries a real event number, is never a
synchronous event inside the PAL, and hands over the address selected by the
final `switch`. -/
theorem raiseEvent_upcall {env : ExceptionEnv} {eventNum : Nat} {info : SgxExitInfo}
    {isSyntheticGp : Bool} {uc : SgxCpuContext} {exinfo : SgxExinfo} {event : Nat}
    {isInPal : Bool} {addr : UInt64} {ctx : PalContext}
    (raised : raiseEvent env eventNum info isSyntheticGp uc exinfo = .upcall event isInPal addr ctx) :
    event = eventNum ∧ 0 < eventNum ∧ eventNum < PAL_EVENT_NUM_BOUND ∧
      isInPal = addrInPal env uc.rip ∧
      (isInPal = true → eventNum = PalEvent.quit.toNat ∨ eventNum = PalEvent.interrupted.toNat) ∧
      ctx = exceptionContext info isSyntheticGp uc exinfo ∧
      (eventNum = PalEvent.illegal.toNat → addr = uc.rip) ∧
      (eventNum = PalEvent.memfault.toNat → addr = ctx.cr2 ∧
        (hasHwFaultAddress info isSyntheticGp = true ∨ isSyntheticGp = true ∨
          env.memfaultsWithoutExinfoAllowed = true)) := by
  unfold raiseEvent at raised
  split at raised
  · cases raised
  rename_i inRange
  split at raised
  · cases raised
  rename_i outsidePal
  have asynchronous : addrInPal env uc.rip = true →
      eventNum = PalEvent.quit.toNat ∨ eventNum = PalEvent.interrupted.toNat := by
    intro inPal
    by_contra synchronous
    exact outsidePal ⟨inPal, by omega⟩
  have bounds : 0 < eventNum ∧ eventNum < PAL_EVENT_NUM_BOUND := by omega
  split at raised
  · rename_i illegal
    cases raised
    refine ⟨rfl, bounds.1, bounds.2, rfl, asynchronous, rfl, fun _ => rfl, ?_⟩
    intro memfault
    simp [illegal, PalEvent.toNat] at memfault
  split at raised
  · rename_i memfault
    split at raised
    · cases raised
    · rename_i reported
      cases raised
      refine ⟨rfl, bounds.1, bounds.2, rfl, asynchronous, rfl, ?_, fun _ => ⟨rfl, ?_⟩⟩
      · intro illegal
        simp [illegal, PalEvent.toNat] at memfault
      · revert reported
        cases hasHwFaultAddress info isSyntheticGp <;> cases isSyntheticGp <;>
          cases env.memfaultsWithoutExinfoAllowed <;> simp
  · rename_i notIllegal notMemfault
    cases raised
    exact ⟨rfl, bounds.1, bounds.2, rfl, asynchronous, rfl, fun illegal => absurd illegal notIllegal,
      fun memfault => absurd memfault notMemfault⟩

/-- The fault address stored in the context is the EXINFO `maddr` exactly when
EXINFO carries one, and zero otherwise. -/
theorem exceptionContext_cr2 (info : SgxExitInfo) (isSyntheticGp : Bool) (uc : SgxCpuContext)
    (exinfo : SgxExinfo) :
    (exceptionContext info isSyntheticGp uc exinfo).cr2 =
      if hasHwFaultAddress info isSyntheticGp then exinfo.maddr else 0 := by
  unfold exceptionContext
  by_cases valid : info.valid = true
  · by_cases reported : hasHwFaultAddress info isSyntheticGp = true
    · simp [valid, reported]
    · simp [valid, reported, savePalContext]
  · have notReported : hasHwFaultAddress info isSyntheticGp = false := by
      simp [hasHwFaultAddress, valid]
    simp [valid, notReported, savePalContext]

/-! ## The whole handler -/

section Handler

variable {env : ExceptionEnv} {info : SgxExitInfo} {untrusted : Nat} {uc : SgxCpuContext}
  {mem : Nat → UInt8} {exinfo : SgxExinfo} {event : Nat} {isInPal : Bool} {addr : UInt64}
  {ctx : PalContext}

/-- Every upcall passed one row of the cross-check and then `raiseEvent`. -/
theorem palExceptionHandler_upcall
    (delivered : palExceptionHandler env info untrusted uc mem exinfo =
      .upcall event isInPal addr ctx) :
    ∃ info' isSyntheticGp, crossCheck env info untrusted uc mem = .event event info' isSyntheticGp ∧
      raiseEvent env event info' isSyntheticGp uc exinfo = .upcall event isInPal addr ctx := by
  unfold palExceptionHandler at delivered
  split at delivered
  · cases delivered
  · cases delivered
  · rename_i eventNum info' isSyntheticGp passed
    have same := (raiseEvent_upcall delivered).1
    subst same
    exact ⟨info', isSyntheticGp, passed, delivered⟩

/-- The cross-check resumes the thread only after an emulation of a hardware
`#UD` that the host reported as an illegal instruction. -/
theorem crossCheck_emulated {uc' : SgxCpuContext}
    (emulated : crossCheck env info untrusted uc mem = .emulated uc') :
    info.valid = true ∧ info.vector = SGX_EXCEPTION_VECTOR_UD ∧
      untrusted = PalEvent.illegal.toNat ∧ handleUd env uc mem = .emulated uc' := by
  unfold crossCheck at emulated
  split_ifs at emulated with invalid async memfault ud illegal
  · split at emulated <;> cases emulated
    rename_i emulatedUd
    exact ⟨by simpa using invalid, ud, by simpa using illegal, emulatedUd⟩

/-- `raiseEvent` never resumes without an upcall. -/
theorem raiseEvent_ne_resume {eventNum : Nat} {info' : SgxExitInfo} {isSyntheticGp : Bool}
    {uc' : SgxCpuContext} : raiseEvent env eventNum info' isSyntheticGp uc exinfo ≠ .resume uc' := by
  unfold raiseEvent
  split_ifs <;> simp

/-- An emulated instruction is resumed only for a hardware `#UD` the host
reported as an illegal instruction. -/
theorem palExceptionHandler_resume {uc' : SgxCpuContext}
    (resumed : palExceptionHandler env info untrusted uc mem exinfo = .resume uc') :
    info.valid = true ∧ info.vector = SGX_EXCEPTION_VECTOR_UD ∧
      untrusted = PalEvent.illegal.toNat ∧ handleUd env uc mem = .emulated uc' := by
  unfold palExceptionHandler at resumed
  split at resumed
  · cases resumed
  · rename_i emulated
    cases resumed
    exact crossCheck_emulated emulated
  · exact absurd resumed raiseEvent_ne_resume

/-- An illegal instruction is delivered only for a hardware `#UD` that
`handle_ud` did not emulate, with the trusted `rip` as the address. -/
theorem palExceptionHandler_upcall_illegal
    (delivered : palExceptionHandler env info untrusted uc mem exinfo =
      .upcall event isInPal addr ctx)
    (illegal : event = PalEvent.illegal.toNat) :
    info.valid = true ∧ info.vector = SGX_EXCEPTION_VECTOR_UD ∧
      handleUd env uc mem = .notHandled PalEvent.illegal.toNat ∧ addr = uc.rip := by
  obtain ⟨info', isSyntheticGp, passed, raised⟩ := palExceptionHandler_upcall delivered
  obtain ⟨-, -, -, -, -, -, illegalAddr, -⟩ := raiseEvent_upcall raised
  subst illegal
  rcases crossCheck_event passed with
      ⟨-, async, -⟩ | ⟨-, memfault, -⟩ | ⟨valid, ud, -, unhandled, -⟩ |
      ⟨-, -, arithmetic, -⟩ | ⟨-, -, async, -⟩ | ⟨-, -, memfault, -⟩
  · simp [PalEvent.toNat] at async
  · simp [PalEvent.toNat] at memfault
  · exact ⟨valid, ud, unhandled, illegalAddr rfl⟩
  · simp [PalEvent.toNat] at arithmetic
  · simp [PalEvent.toNat] at async
  · simp [PalEvent.toNat] at memfault

/-- An arithmetic error is delivered only for a hardware `#DE`, `#MF` or `#XM`. -/
theorem palExceptionHandler_upcall_arithmeticError
    (delivered : palExceptionHandler env info untrusted uc mem exinfo =
      .upcall event isInPal addr ctx)
    (arithmetic : event = PalEvent.arithmeticError.toNat) :
    info.valid = true ∧ (info.vector = SGX_EXCEPTION_VECTOR_DE
      ∨ info.vector = SGX_EXCEPTION_VECTOR_MF ∨ info.vector = SGX_EXCEPTION_VECTOR_XM) := by
  obtain ⟨info', isSyntheticGp, passed, -⟩ := palExceptionHandler_upcall delivered
  subst arithmetic
  rcases crossCheck_event passed with
      ⟨-, async, -⟩ | ⟨-, memfault, -⟩ | ⟨-, -, -, unhandled, -⟩ |
      ⟨valid, vector, -⟩ | ⟨-, -, async, -⟩ | ⟨-, -, memfault, -⟩
  · simp [PalEvent.toNat] at async
  · simp [PalEvent.toNat] at memfault
  · rcases handleUd_notHandled unhandled with illegal | ⟨memfault, -⟩
    · simp [PalEvent.toNat] at illegal
    · simp [PalEvent.toNat] at memfault
  · exact ⟨valid, vector⟩
  · simp [PalEvent.toNat] at async
  · simp [PalEvent.toNat] at memfault

/-- The asynchronous events are believed only when EXITINFO is invalid or
reports a `#PF` that the host resolved. -/
theorem palExceptionHandler_upcall_asynchronous
    (delivered : palExceptionHandler env info untrusted uc mem exinfo =
      .upcall event isInPal addr ctx)
    (asynchronous : event = PalEvent.quit.toNat ∨ event = PalEvent.interrupted.toNat) :
    info.valid = false ∨ info.vector = SGX_EXCEPTION_VECTOR_PF := by
  obtain ⟨info', isSyntheticGp, passed, -⟩ := palExceptionHandler_upcall delivered
  simp [PalEvent.toNat] at asynchronous
  rcases crossCheck_event passed with
      ⟨invalid, -⟩ | ⟨invalid, -⟩ | ⟨-, -, -, unhandled, -⟩ |
      ⟨-, -, arithmetic, -⟩ | ⟨-, pf, -⟩ | ⟨-, -, memfault, -⟩
  · exact .inl invalid
  · exact .inl invalid
  · rcases handleUd_notHandled unhandled with illegal | ⟨memfault, -⟩
    · simp only [PalEvent.toNat] at illegal
      omega
    · simp only [PalEvent.toNat] at memfault
      omega
  · simp only [PalEvent.toNat] at arithmetic
    omega
  · exact .inr pf
  · simp only [PalEvent.toNat] at memfault
    omega

/-- A memory fault is delivered only for a hardware `#PF`, `#GP` or `#AC`, for
a `#UD` on an unlocked I/O instruction with address zero, or, with
`memfaults_without_exinfo_allowed`, for a host-reported fault with address
zero; a real `#GP` or `#PF` hands over the EXINFO `maddr`. -/
theorem palExceptionHandler_upcall_memfault
    (delivered : palExceptionHandler env info untrusted uc mem exinfo =
      .upcall event isInPal addr ctx)
    (memfault : event = PalEvent.memfault.toNat) :
    (info.valid = true ∧ (info.vector = SGX_EXCEPTION_VECTOR_PF
        ∨ info.vector = SGX_EXCEPTION_VECTOR_GP ∨ info.vector = SGX_EXCEPTION_VECTOR_AC) ∧
      (info.vector = SGX_EXCEPTION_VECTOR_GP ∨ info.vector = SGX_EXCEPTION_VECTOR_PF →
        addr = exinfo.maddr)) ∨
    (info.valid = true ∧ info.vector = SGX_EXCEPTION_VECTOR_UD ∧
      isInOut (instrAt mem uc) = true ∧ hasLockPrefix (instrAt mem uc) = false ∧ addr = 0) ∨
    (info.valid = false ∧ env.memfaultsWithoutExinfoAllowed = true ∧ addr = 0) := by
  obtain ⟨info', isSyntheticGp, passed, raised⟩ := palExceptionHandler_upcall delivered
  obtain ⟨-, -, -, -, -, sameCtx, -, memfaultAddr⟩ := raiseEvent_upcall raised
  have faultAddr := (memfaultAddr memfault).1
  rw [sameCtx, exceptionContext_cr2] at faultAddr
  subst memfault
  rcases crossCheck_event passed with
      ⟨-, async, -⟩ | ⟨invalid, -, allowed, zeroed, noGp⟩ |
      ⟨valid, ud, -, unhandled, sameInfo, synthetic⟩ | ⟨-, -, arithmetic, -⟩ | ⟨-, -, async, -⟩ |
      ⟨valid, vector, -, sameInfo, noGp⟩
  · simp [PalEvent.toNat] at async
  · refine .inr (.inr ⟨invalid, allowed, ?_⟩)
    simpa [zeroed, hasHwFaultAddress, SgxExitInfo.zero] using faultAddr
  · rcases handleUd_notHandled unhandled with illegal | ⟨-, inOut, unlocked⟩
    · simp [PalEvent.toNat] at illegal
    · refine .inr (.inl ⟨valid, ud, inOut, unlocked, ?_⟩)
      simpa [synthetic, hasHwFaultAddress] using faultAddr
  · simp [PalEvent.toNat] at arithmetic
  · simp [PalEvent.toNat] at async
  · refine .inl ⟨valid, vector, fun reported => ?_⟩
    have hw : hasHwFaultAddress info' isSyntheticGp = true := by
      rw [sameInfo, noGp]
      rcases reported with vectorEq | vectorEq <;> simp [hasHwFaultAddress, valid, vectorEq]
    simpa [hw] using faultAddr

/-- No synchronous event is delivered while `rip` is inside the PAL, and the
upcall is told where the fault happened. -/
theorem palExceptionHandler_upcall_outside_pal
    (delivered : palExceptionHandler env info untrusted uc mem exinfo =
      .upcall event isInPal addr ctx) :
    isInPal = addrInPal env uc.rip ∧
      (addrInPal env uc.rip = true → event = PalEvent.quit.toNat ∨ event = PalEvent.interrupted.toNat) := by
  obtain ⟨info', isSyntheticGp, -, raised⟩ := palExceptionHandler_upcall delivered
  obtain ⟨-, -, -, inPal, asynchronous, -⟩ := raiseEvent_upcall raised
  exact ⟨inPal, fun inside => asynchronous (inPal ▸ inside)⟩

end Handler

/-- The handler never trusts the host's signal over the hardware. Whatever the
trusted EXITINFO, the untrusted event number and the SSA context, it exits the
process, resumes right after an emulated `cpuid`, `rdtsc`, `rdtscp` or
`iretq` of a hardware `#UD`, or makes one upcall: for a real event number that
its cross-check table admits for that EXITINFO, with the fault address taken
from trusted state, and never for a synchronous event raised inside the PAL. -/
theorem palExceptionHandler_cross_checks (env : ExceptionEnv) (info : SgxExitInfo)
    (untrusted : Nat) (uc : SgxCpuContext) (mem : Nat → UInt8) (exinfo : SgxExinfo) :
    (∀ uc', palExceptionHandler env info untrusted uc mem exinfo = .resume uc' →
      info.valid = true ∧ info.vector = SGX_EXCEPTION_VECTOR_UD ∧
        untrusted = PalEvent.illegal.toNat ∧
        ((isCpuid (instrAt mem uc) = true ∧ uc'.rip = uc.rip + 2) ∨
          (isRdtsc (instrAt mem uc) = true ∧ uc'.rip = uc.rip + 2) ∨
          (isRdtscp (instrAt mem uc) = true ∧ uc'.rip = uc.rip + 3) ∨
          (isIretq (instrAt mem uc) = true ∧ uc'.rip = loadU64 mem uc.rsp))) ∧
    (∀ event isInPal addr ctx,
      palExceptionHandler env info untrusted uc mem exinfo = .upcall event isInPal addr ctx →
      0 < event ∧ event < PAL_EVENT_NUM_BOUND ∧
      (event = PalEvent.illegal.toNat →
        info.valid = true ∧ info.vector = SGX_EXCEPTION_VECTOR_UD ∧
          handleUd env uc mem = .notHandled PalEvent.illegal.toNat ∧ addr = uc.rip) ∧
      (event = PalEvent.arithmeticError.toNat →
        info.valid = true ∧ (info.vector = SGX_EXCEPTION_VECTOR_DE
          ∨ info.vector = SGX_EXCEPTION_VECTOR_MF ∨ info.vector = SGX_EXCEPTION_VECTOR_XM)) ∧
      (event = PalEvent.memfault.toNat →
        (info.valid = true ∧ (info.vector = SGX_EXCEPTION_VECTOR_PF
            ∨ info.vector = SGX_EXCEPTION_VECTOR_GP ∨ info.vector = SGX_EXCEPTION_VECTOR_AC) ∧
          (info.vector = SGX_EXCEPTION_VECTOR_GP ∨ info.vector = SGX_EXCEPTION_VECTOR_PF →
            addr = exinfo.maddr)) ∨
        (info.valid = true ∧ info.vector = SGX_EXCEPTION_VECTOR_UD ∧
          isInOut (instrAt mem uc) = true ∧ hasLockPrefix (instrAt mem uc) = false ∧ addr = 0) ∨
        (info.valid = false ∧ env.memfaultsWithoutExinfoAllowed = true ∧ addr = 0)) ∧
      (event = PalEvent.quit.toNat ∨ event = PalEvent.interrupted.toNat →
        info.valid = false ∨ info.vector = SGX_EXCEPTION_VECTOR_PF) ∧
      isInPal = addrInPal env uc.rip ∧
      (addrInPal env uc.rip = true →
        event = PalEvent.quit.toNat ∨ event = PalEvent.interrupted.toNat)) := by
  constructor
  · intro uc' resumed
    obtain ⟨valid, ud, illegal, emulated⟩ := palExceptionHandler_resume resumed
    exact ⟨valid, ud, illegal, handleUd_emulated emulated⟩
  · intro event isInPal addr ctx delivered
    obtain ⟨info', isSyntheticGp, -, raised⟩ := palExceptionHandler_upcall delivered
    obtain ⟨-, positive, bounded, -⟩ := raiseEvent_upcall raised
    exact ⟨positive, bounded, palExceptionHandler_upcall_illegal delivered,
      palExceptionHandler_upcall_arithmeticError delivered,
      palExceptionHandler_upcall_memfault delivered,
      palExceptionHandler_upcall_asynchronous delivered,
      palExceptionHandler_upcall_outside_pal delivered⟩

end Gramine.Pal.LinuxSgx
