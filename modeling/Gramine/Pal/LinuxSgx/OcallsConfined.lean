import Gramine.Pal.LinuxSgx.Ocalls

/-!
# What the ocall wrappers let the host do to the enclave

For every answer of the host, each wrapper of `Ocalls` changes enclave memory
only inside the buffers its caller passed, within their sizes; bounds the
counts it returns and the lengths it stores back; and lets through only the
error numbers it lists, turning any other into `-EPERM`. `ocall_recv` places
the bytes the host received over the iovecs in order.
-/

namespace Gramine.Pal.LinuxSgx

open ByteCopy

/-- An address outside the enclave. -/
def EnclaveRange.Outside (enclave : EnclaveRange) (a : Nat) : Prop := a < enclave.base ∨ enclave.top ≤ a

/-- An address of the `len` bytes at `ptr`. -/
def InBuffer (ptr len a : Nat) : Prop := ptr ≤ a ∧ a < ptr + len

/-- An address of the `len` bytes at `ptr`, when the pointer is not `NULL`. -/
def InOptBuffer (ptr : Option Nat) (len a : Nat) : Prop := ∃ p, ptr = some p ∧ InBuffer p len a

/-- A length stored back through a pointer the caller passed, and at most the
length it passed. -/
def StoredAtMost (supplied stored : Option Nat) : Prop := ∀ l, stored = some l → ∃ l₀, supplied = some l₀ ∧ l ≤ l₀

attribute [grind] EnclaveRange.Outside

theorem StoredAtMost.refl (supplied : Option Nat) : StoredAtMost supplied supplied :=
  fun l stored => ⟨l, stored, Nat.le_refl l⟩

/-- A length stored back (`stored`) under the checks of `copyBackIfAny`, or
else the caller's own. -/
theorem storedAtMost_or {supplied stored : Option Nat}
    (bound : ∀ l, stored = some l → l ≤ supplied.getD 0 ∧ supplied.getD 0 ≠ 0) :
    StoredAtMost supplied (stored.or supplied) := by
  intro l after
  cases stored with
  | none => exact ⟨l, after, Nat.le_refl l⟩
  | some written =>
    cases after
    obtain ⟨le, passed⟩ := bound l rfl
    cases supplied with
    | none => exact absurd rfl passed
    | some l₀ => exact ⟨l₀, rfl, le⟩

/-! ## The primitives -/

section Primitives

variable {enclave : EnclaveRange} {m m' : CopyMachine}

theorem ocallExit_writesWithin (ans : OcallAnswer) (m : CopyMachine) :
    WritesWithin enclave.Outside m.mem (ocallExit enclave ans m).mem := by
  intro a inside
  unfold EnclaveRange.Outside at inside
  simp only [ocallExit]
  rw [if_pos (by omega)]

theorem ocallExit_outside (ans : OcallAnswer) (m : CopyMachine) {a : Nat} (outside : enclave.Outside a) :
    (ocallExit enclave ans m).mem a = ans.untrusted a := by
  unfold EnclaveRange.Outside at outside
  simp only [ocallExit]
  rw [if_neg (by omega)]

theorem ocallRetryEintr_eq_some {answer : Nat → OcallAnswer} {ans : OcallAnswer} :
    ∀ {fuel call : Nat} {m m' : CopyMachine}, ocallRetryEintr enclave answer fuel call m = some (ans, m') →
      ans.retval ≠ -EINTR ∧ WritesWithin enclave.Outside m.mem m'.mem
  | 0, _, _, _, h => by cases h
  | fuel + 1, call, m, m', h => by
    simp only [ocallRetryEintr] at h
    split_ifs at h with interrupted
    · obtain ⟨ended, rest⟩ := ocallRetryEintr_eq_some h
      exact ⟨ended, (ocallExit_writesWithin _ m).trans rest⟩
    · obtain ⟨rfl, rfl⟩ := Prod.mk.inj (Option.some.inj h)
      exact ⟨interrupted, ocallExit_writesWithin _ m⟩

/-- A successful `sgx_copy_to_enclave` passed its three checks and copied. -/
theorem sgxCopyToEnclave_eq_some {ptr maxsize uptr usize : Nat}
    (h : sgxCopyToEnclave enclave m ptr maxsize uptr usize = some m') :
    usize ≤ maxsize ∧ sgxIsValidUntrustedPtr enclave uptr usize 1 = true ∧
      sgxIsCompletelyWithinEnclave enclave ptr maxsize = true ∧ m'.mem = copy m.mem ptr uptr usize := by
  unfold sgxCopyToEnclave at h
  split_ifs at h with failed
  simp only [Bool.or_eq_true, decide_eq_true_eq, Bool.not_eq_true', not_or, Nat.not_lt,
    Bool.not_eq_false] at failed
  obtain ⟨⟨fits, valid⟩, within⟩ := failed
  cases h
  refine ⟨fits, valid, within, (sgxCopyToEnclaveVerified_eq m ?_).1⟩
  unfold sgxIsValidUntrustedPtr at valid
  unfold sgxIsCompletelyWithinEnclave at within
  split_ifs at valid within with overflow outside
  simp only [Bool.not_or, Bool.and_eq_true, Bool.not_eq_eq_eq_not, Bool.not_true, decide_eq_false_iff_not,
    Nat.not_le, not_and, Nat.not_lt, decide_eq_true_eq] at outside within
  omega

/-- `sgx_copy_to_enclave` writes only inside the enclave buffer it was given. -/
theorem sgxCopyToEnclave_writesWithin {ptr maxsize uptr usize : Nat}
    (h : sgxCopyToEnclave enclave m ptr maxsize uptr usize = some m') :
    WritesWithin (InBuffer ptr maxsize) m.mem m'.mem := by
  obtain ⟨fits, -, -, copied⟩ := sgxCopyToEnclave_eq_some h
  rw [copied]
  apply copy_writesWithin.mono
  intro a inside
  exact ⟨inside.1, by omega⟩

/-- The enclave buffer of a successful `sgx_copy_to_enclave` lies in the enclave. -/
theorem sgxCopyToEnclave_inside {ptr maxsize uptr usize a : Nat}
    (h : sgxCopyToEnclave enclave m ptr maxsize uptr usize = some m') (inside : InBuffer ptr maxsize a) :
    ¬ enclave.Outside a := by
  obtain ⟨-, -, within, -⟩ := sgxCopyToEnclave_eq_some h
  unfold sgxIsCompletelyWithinEnclave at within
  split_ifs at within
  simp only [Bool.and_eq_true, decide_eq_true_eq] at within
  unfold EnclaveRange.Outside
  unfold InBuffer at inside
  omega

/-- Every byte of a valid untrusted range lies outside the enclave. -/
theorem sgxIsValidUntrustedPtr_outside {uptr size : Nat} (valid : sgxIsValidUntrustedPtr enclave uptr size 1 = true)
    {k : Nat} (within : k < size) : enclave.Outside (uptr + k) := by
  unfold sgxIsValidUntrustedPtr at valid
  split_ifs at valid with overflow outside
  simp only [Bool.not_or, Bool.and_eq_true, Bool.not_eq_eq_eq_not, Bool.not_true, decide_eq_false_iff_not,
    Nat.not_le, not_and, Nat.not_lt] at outside
  unfold EnclaveRange.Outside
  omega

/-- `sgx_copy_to_enclave` writes only inside the enclave. -/
theorem sgxCopyToEnclave_writesInside {ptr maxsize uptr usize : Nat}
    (h : sgxCopyToEnclave enclave m ptr maxsize uptr usize = some m') :
    WritesWithin (fun a => ¬ enclave.Outside a) m.mem m'.mem :=
  (sgxCopyToEnclave_writesWithin h).mono fun _ inside => sgxCopyToEnclave_inside h inside

/-- The copy back of an address or of control data writes only its buffer,
and stores a length only for a buffer of nonzero length, at most that length. -/
theorem copyBackIfAny_eq_some {ptr uptr stored : Option Nat} {len ulen : Nat}
    (h : copyBackIfAny enclave m ptr len uptr ulen = some (m', stored)) :
    WritesWithin (InOptBuffer ptr len) m.mem m'.mem ∧ ∀ l, stored = some l → l ≤ len ∧ len ≠ 0 := by
  cases ptr with
  | none =>
    obtain ⟨rfl, rfl⟩ := Prod.mk.inj (Option.some.inj h)
    exact ⟨WritesWithin.refl _ _, fun l none => by cases none⟩
  | some p =>
    simp only [copyBackIfAny] at h
    split_ifs at h with empty
    · obtain ⟨rfl, rfl⟩ := Prod.mk.inj (Option.some.inj h)
      exact ⟨WritesWithin.refl _ _, fun l none => by cases none⟩
    · obtain ⟨m₁, copied, result⟩ := Option.map_eq_some_iff.mp h
      obtain ⟨rfl, rfl⟩ := Prod.mk.inj result
      refine ⟨(sgxCopyToEnclave_writesWithin copied).mono fun a inside => ⟨p, rfl, inside⟩, ?_⟩
      rintro l ⟨⟩
      exact ⟨(sgxCopyToEnclave_eq_some copied).1, empty⟩

theorem copyBackIfAny_writesInside {ptr uptr stored : Option Nat} {len ulen : Nat}
    (h : copyBackIfAny enclave m ptr len uptr ulen = some (m', stored)) :
    WritesWithin (fun a => ¬ enclave.Outside a) m.mem m'.mem := by
  cases ptr with
  | none =>
    obtain ⟨rfl, rfl⟩ := Prod.mk.inj (Option.some.inj h)
    exact WritesWithin.refl _ _
  | some p =>
    simp only [copyBackIfAny] at h
    split_ifs at h
    · obtain ⟨rfl, rfl⟩ := Prod.mk.inj (Option.some.inj h)
      exact WritesWithin.refl _ _
    · obtain ⟨m₁, copied, result⟩ := Option.map_eq_some_iff.mp h
      obtain ⟨rfl, rfl⟩ := Prod.mk.inj result
      exact sgxCopyToEnclave_writesInside copied

end Primitives

section Errno

variable {allowed : List Int} {retval : Int}

theorem filterErrno_of_neg (neg : filterErrno allowed retval < 0) :
    filterErrno allowed retval = -EPERM ∨ filterErrno allowed retval ∈ allowed := by
  unfold filterErrno at neg ⊢
  split_ifs at neg ⊢ with filtered
  · exact Or.inl rfl
  · simp only [not_and, not_not] at filtered
    exact Or.inr (filtered neg)

theorem neg_EPERM_lt_zero : -EPERM < 0 := by decide

theorem filterErrno_neg (neg : retval < 0) : filterErrno allowed retval < 0 := by
  unfold filterErrno
  split_ifs
  · exact neg_EPERM_lt_zero
  · exact neg

end Errno

/-! ## `ocall_read` and `ocall_pread` -/

/-- What `ocall_read` and `ocall_pread` guarantee: enclave memory changes only
in `buf`, within `count`; a positive result is at most `count`; an error is
`-EPERM`, one the wrapper lists, or what `cacheError` admits. -/
structure ReadConfined (enclave : EnclaveRange) (allowed : List Int) (cacheError : Int → Prop) (m : CopyMachine)
    (buf count : Nat) (out : Int × CopyMachine) : Prop where
  writes : WritesWithin (fun a => enclave.Outside a ∨ InBuffer buf count a) m.mem out.2.mem
  bounded : 0 < out.1 → out.1 ≤ count
  errno : out.1 < 0 → out.1 = -EPERM ∨ out.1 ∈ allowed ∨ cacheError out.1

theorem untrustedBuffer_error {enclave : EnclaveRange} {host : OcallHost} {ustack count : Nat} {ret : Int}
    (h : untrustedBuffer enclave host ustack count = .error ret) :
    ret < 0 ∧ (ret = -EPERM ∨ (host.untrustedCache (alignUp count PAGE_SIZE)).1 = ret) := by
  unfold untrustedBuffer at h
  split_ifs at h with large
  · generalize host.untrustedCache (alignUp count PAGE_SIZE) = cached at h ⊢
    obtain ⟨cachedRet, obuf⟩ := cached
    dsimp only at h ⊢
    split_ifs at h with failed
    cases h
    exact ⟨failed, Or.inr rfl⟩
  · split at h
    · cases h
      exact ⟨neg_EPERM_lt_zero, Or.inl rfl⟩
    · cases h

theorem readIntoEnclave_confined (allowed : List Int) (argsSize : Nat) (enclave : EnclaveRange) (host : OcallHost)
    (ustack : Nat) (m : CopyMachine) (buf count : Nat) :
    ReadConfined enclave allowed (fun ret => (host.untrustedCache (alignUp count PAGE_SIZE)).1 = ret) m buf count
      (readIntoEnclave allowed argsSize enclave host ustack m buf count) := by
  have exited : WritesWithin (fun a => enclave.Outside a ∨ InBuffer buf count a) m.mem
      (ocallExit enclave (host.answer 0) m).mem :=
    (ocallExit_writesWithin _ m).mono fun _ outside => Or.inl outside
  unfold readIntoEnclave
  cases buffer : untrustedBuffer enclave host ustack count with
  | error ret =>
    obtain ⟨neg, source⟩ := untrustedBuffer_error buffer
    dsimp only
    refine ⟨WritesWithin.refl _ _, fun pos => absurd pos (by omega), fun _ => ?_⟩
    rcases source with perm | cached
    · exact Or.inl perm
    · exact Or.inr (Or.inr cached)
  | ok buffered =>
    obtain ⟨ubuf, ustack'⟩ := buffered
    have perm := neg_EPERM_lt_zero
    dsimp only
    split_ifs with noArgs positive tooMany
    · exact ⟨WritesWithin.refl _ _, fun pos => absurd pos (by omega), fun _ => Or.inl rfl⟩
    · exact ⟨exited, fun pos => absurd pos (by omega), fun _ => Or.inl rfl⟩
    · split
      · exact ⟨exited, fun pos => absurd pos (by omega), fun _ => Or.inl rfl⟩
      · rename_i m' copied
        refine ⟨exited.trans ((sgxCopyToEnclave_writesWithin copied).mono fun _ inside => Or.inr inside),
          fun _ => by omega, fun neg => absurd neg (by omega)⟩
    · refine ⟨exited, fun pos => absurd pos positive, fun neg => ?_⟩
      rcases filterErrno_of_neg neg with perm | listed
      · exact Or.inl perm
      · exact Or.inr (Or.inl listed)

/-! ## `ocall_accept` -/

/-- What `ocall_accept` guarantees: enclave memory changes only in the two
address buffers, within their lengths; the lengths stored back are at most
those passed; an error is `-EPERM` or one the wrapper lists. -/
structure AcceptConfined (enclave : EnclaveRange) (m : CopyMachine) (addr addrlen localAddr localAddrlen : Option Nat)
    (out : AcceptOut) : Prop where
  writes : WritesWithin (fun a => enclave.Outside a ∨ InOptBuffer addr (addrlen.getD 0) a ∨
    InOptBuffer localAddr (localAddrlen.getD 0) a) m.mem out.machine.mem
  storedAddrlen : StoredAtMost addrlen out.addrlen
  storedLocalAddrlen : StoredAtMost localAddrlen out.localAddrlen
  errno : out.retval < 0 → out.retval = -EPERM ∨ out.retval ∈ acceptErrnos

theorem ocallAccept_confined (enclave : EnclaveRange) (host : OcallHost) (ustack : Nat) (m : CopyMachine)
    (addr addrlen localAddr localAddrlen : Option Nat) :
    AcceptConfined enclave m addr addrlen localAddr localAddrlen
      (ocallAccept enclave host ustack m addr addrlen localAddr localAddrlen) := by
  have exited : WritesWithin (fun a => enclave.Outside a ∨ InOptBuffer addr (addrlen.getD 0) a ∨
      InOptBuffer localAddr (localAddrlen.getD 0) a) m.mem (ocallExit enclave (host.answer 0) m).mem :=
    (ocallExit_writesWithin _ m).mono fun _ outside => Or.inl outside
  unfold ocallAccept
  dsimp only
  cases prepared : acceptUntrusted enclave ustack addr (addrlen.getD 0) localAddr (localAddrlen.getD 0) with
  | none =>
    exact ⟨WritesWithin.refl _ _, StoredAtMost.refl _, StoredAtMost.refl _, fun _ => Or.inl rfl⟩
  | some untrusted =>
    obtain ⟨untrustedAddr, untrustedLocalAddr⟩ := untrusted
    dsimp only
    split_ifs with failed
    · exact ⟨exited, StoredAtMost.refl _, StoredAtMost.refl _, fun neg => filterErrno_of_neg neg⟩
    cases first : copyBackIfAny enclave (ocallExit enclave (host.answer 0) m) addr (addrlen.getD 0) untrustedAddr
      (host.answer 0).addrlen with
    | none => exact ⟨exited, StoredAtMost.refl _, StoredAtMost.refl _, fun _ => Or.inl rfl⟩
    | some firstOut =>
      obtain ⟨m₁, stored⟩ := firstOut
      obtain ⟨writes₁, bound₁⟩ := copyBackIfAny_eq_some first
      have upToFirst := exited.trans (writes₁.mono fun _ inside => Or.inr (Or.inl inside))
      dsimp only
      cases second : copyBackIfAny enclave m₁ localAddr (localAddrlen.getD 0) untrustedLocalAddr
        (host.answer 0).localAddrlen with
      | none => exact ⟨upToFirst, storedAtMost_or bound₁, StoredAtMost.refl _, fun _ => Or.inl rfl⟩
      | some secondOut =>
        obtain ⟨m₂, storedLocal⟩ := secondOut
        obtain ⟨writes₂, bound₂⟩ := copyBackIfAny_eq_some second
        exact ⟨upToFirst.trans (writes₂.mono fun _ inside => Or.inr (Or.inr inside)), storedAtMost_or bound₁,
          storedAtMost_or bound₂, fun neg => absurd neg failed⟩

/-! ## `ocall_connect_simple` -/

/-- What `ocall_connect_simple` guarantees: enclave memory changes only in the
`struct sockaddr_storage` at `addr`; the length stored back is at most its
size; the result is `0` or an error, `-EPERM` or one the wrapper lists. -/
structure ConnectSimpleConfined (enclave : EnclaveRange) (m : CopyMachine) (addr addrlen : Nat)
    (out : ConnectSimpleOut) : Prop where
  writes : WritesWithin (fun a => enclave.Outside a ∨ InBuffer addr SOCKADDR_STORAGE_SIZE a) m.mem out.machine.mem
  storedAddrlen : out.addrlen = addrlen ∨ out.addrlen ≤ SOCKADDR_STORAGE_SIZE
  nonpos : out.retval ≤ 0
  errno : out.retval < 0 → out.retval = -EPERM ∨ out.retval ∈ connectSimpleErrnos

theorem connectSimpleFinish_confined {enclave : EnclaveRange} {m₀ m : CopyMachine} {addr addrlen : Nat}
    (untrustedAddr : Nat) (ans : OcallAnswer) (ret : Int) (inprogress : Bool)
    (exited : WritesWithin (fun a => enclave.Outside a ∨ InBuffer addr SOCKADDR_STORAGE_SIZE a) m₀.mem m.mem) :
    ConnectSimpleConfined enclave m₀ addr addrlen
      (connectSimpleFinish enclave m addr addrlen untrustedAddr ans ret inprogress) := by
  have perm := Int.le_of_lt neg_EPERM_lt_zero
  unfold connectSimpleFinish
  split_ifs with failed tooLong
  · have filtered : filterErrno connectSimpleErrnos _ < 0 := filterErrno_neg failed
    exact ⟨exited, Or.inl rfl, Int.le_of_lt filtered, fun _ => filterErrno_of_neg filtered⟩
  · exact ⟨exited, Or.inl rfl, perm, fun _ => Or.inl rfl⟩
  split
  · exact ⟨exited, Or.inl rfl, perm, fun _ => Or.inl rfl⟩
  · rename_i m' copied
    exact ⟨exited.trans ((sgxCopyToEnclave_writesWithin copied).mono fun _ inside => Or.inr inside),
      Or.inr (Nat.le_of_not_lt tooLong), Int.le_refl 0, fun neg => absurd neg (Int.lt_irrefl 0)⟩

theorem ocallConnectSimple_confined (enclave : EnclaveRange) (host : OcallHost) (ustack : Nat) (m : CopyMachine)
    (fuel : Nat) (nonblocking : Bool) (addr addrlen : Nat) :
    ∀ out ∈ ocallConnectSimple enclave host ustack m fuel nonblocking addr addrlen,
      ConnectSimpleConfined enclave m addr addrlen out := by
  have perm := Int.le_of_lt neg_EPERM_lt_zero
  intro out result
  rw [Option.mem_def] at result
  unfold ocallConnectSimple at result
  split at result
  · cases result
    exact ⟨WritesWithin.refl _ _, Or.inl rfl, perm, fun _ => Or.inl rfl⟩
  split at result
  · cases result
    exact ⟨WritesWithin.refl _ _, Or.inl rfl, perm, fun _ => Or.inl rfl⟩
  obtain ⟨⟨ans, m₁⟩, retried, rfl⟩ := Option.map_eq_some_iff.mp result
  have exited : WritesWithin (fun a => enclave.Outside a ∨ InBuffer addr SOCKADDR_STORAGE_SIZE a) m.mem m₁.mem :=
    (ocallRetryEintr_eq_some retried).2.mono fun _ outside => Or.inl outside
  dsimp only
  split_ifs
  · exact connectSimpleFinish_confined _ ans 0 true exited
  · exact ⟨exited, Or.inl rfl, perm, fun _ => Or.inl rfl⟩
  · exact connectSimpleFinish_confined _ ans ans.retval false exited

/-! ## `ocall_recv` -/

section Recv

variable {enclave : EnclaveRange} {obuf dataSize : Nat}

/-- The scatter loop writes only inside the iovecs. -/
theorem recvScatter_writesWithin :
    ∀ {iov : List (Nat × Nat)} {hostBufIdx : Nat} {m m' : CopyMachine} {ok : Bool},
      recvScatter enclave obuf dataSize iov hostBufIdx m = (m', ok) →
        WritesWithin (fun a => ∃ v ∈ iov, InBuffer v.1 v.2 a) m.mem m'.mem
  | [], _, m, m', ok, h => by
    obtain ⟨rfl, -⟩ := Prod.mk.inj h
    exact WritesWithin.refl _ _
  | (base, len) :: iov, hostBufIdx, m, m', ok, h => by
    have head : ∀ a, InBuffer base len a → ∃ v ∈ (base, len) :: iov, InBuffer v.1 v.2 a :=
      fun a inside => ⟨(base, len), List.mem_cons_self, inside⟩
    simp only [recvScatter] at h
    split_ifs at h with more
    · split at h
      · obtain ⟨rfl, -⟩ := Prod.mk.inj h
        exact WritesWithin.refl _ _
      · rename_i m₁ copied
        apply ((sgxCopyToEnclave_writesWithin copied).mono head).trans
        apply (recvScatter_writesWithin h).mono
        rintro a ⟨v, later, inside⟩
        exact ⟨v, List.mem_cons_of_mem _ later, inside⟩
    · obtain ⟨rfl, -⟩ := Prod.mk.inj h
      exact WritesWithin.refl _ _

/-- When it ends without a failed copy, the scatter loop has placed the next
`dataSize - hostBufIdx` bytes of untrusted memory `u`, from the host index on,
over the iovecs in order. The loop's running index is the prefix sum of what
it copied, which `scatter` keeps as the rest of the stream. -/
theorem recvScatter_eq_scatter {u : Nat → UInt8} :
    ∀ {iov : List (Nat × Nat)} {hostBufIdx : Nat} {m m' : CopyMachine},
      (∀ a, enclave.Outside a → m.mem a = u a) →
      recvScatter enclave obuf dataSize iov hostBufIdx m = (m', true) →
        m'.mem = scatter m.mem (fun k => u (obuf + hostBufIdx + k)) iov (dataSize - hostBufIdx)
  | [], _, m, m', _, h => by
    obtain ⟨rfl, -⟩ := Prod.mk.inj h
    rfl
  | (base, len) :: iov, hostBufIdx, m, m', agrees, h => by
    simp only [recvScatter] at h
    split_ifs at h with more
    · split at h
      · cases h
      rename_i m₁ copied
      obtain ⟨-, valid, -, copiedMem⟩ := sgxCopyToEnclave_eq_some copied
      have thisSize : min (dataSize - hostBufIdx) len = min len (dataSize - hostBufIdx) := Nat.min_comm _ _
      -- the bytes copied came from untrusted memory, where `m` is `u`
      have placed : m₁.mem = place m.mem base (fun k => u (obuf + hostBufIdx + k))
          (min len (dataSize - hostBufIdx)) := by
        rw [copiedMem, copy_eq_place, thisSize]
        apply place_congr
        intro k below
        exact agrees _ (sgxIsValidUntrustedPtr_outside valid (by omega))
      have stillAgrees : ∀ a, enclave.Outside a → m₁.mem a = u a := fun a outside =>
        ((sgxCopyToEnclave_writesInside copied) a (not_not.mpr outside)).trans (agrees a outside)
      rw [recvScatter_eq_scatter stillAgrees h, scatter, placed]
      congr 1
      · funext k
        congr 1
        omega
      · omega
    · obtain ⟨rfl, -⟩ := Prod.mk.inj h
      rw [Nat.sub_eq_zero_of_le (by omega), scatter_zero]

end Recv

theorem recvBuffer_error {enclave : EnclaveRange} {host : OcallHost} {ustack size addrlen controllen : Nat}
    {ret : Int} (h : recvBuffer enclave host ustack size addrlen controllen = .error ret) :
    ret < 0 ∧ (ret = -EPERM ∨ (host.untrustedCache (alignUp size PAGE_SIZE)).1 = ret) := by
  unfold recvBuffer at h
  split_ifs at h with large
  · generalize host.untrustedCache (alignUp size PAGE_SIZE) = cached at h ⊢
    obtain ⟨cachedRet, obuf⟩ := cached
    dsimp only at h ⊢
    split_ifs at h with failed
    cases h
    exact ⟨failed, Or.inr rfl⟩
  · split at h
    · cases h
      exact ⟨neg_EPERM_lt_zero, Or.inl rfl⟩
    · cases h

/-- What `ocall_recv` guarantees: enclave memory changes only in the address
and control buffers and the iovecs, within their lengths; a result is at most
the iovec total, or below `2^48` with `MSG_TRUNC`; the lengths stored back are
at most those passed; an error is `-EPERM`, one the wrapper lists, or the
failure of the untrusted cache; and on success the iovecs hold, in order, the
first `min(size, ret)` bytes of the buffer the host received into, where
`size` is the iovec total as a `size_t`. -/
structure RecvConfined (enclave : EnclaveRange) (host : OcallHost) (ustack : Nat) (m : CopyMachine)
    (iov : List (Nat × Nat)) (addr addrlenptr control controllenptr : Option Nat) (flags : Nat) (out : RecvOut) :
    Prop where
  writes : WritesWithin (fun a => enclave.Outside a ∨ InOptBuffer addr (addrlenptr.getD 0) a ∨
    InOptBuffer control (controllenptr.getD 0) a ∨ ∃ v ∈ iov, InBuffer v.1 v.2 a) m.mem out.machine.mem
  bounded : 0 ≤ out.retval → (flags &&& MSG_TRUNC = 0 → out.retval ≤ (iov.map Prod.snd).sum) ∧
    (flags &&& MSG_TRUNC ≠ 0 → out.retval < 2 ^ 48)
  storedAddrlen : StoredAtMost addrlenptr out.addrlen
  storedControllen : StoredAtMost controllenptr out.controllen
  errno : out.retval < 0 → out.retval = -EPERM ∨ out.retval ∈ recvErrnos ∨
    (host.untrustedCache (alignUp (sizeT (iov.map Prod.snd).sum) PAGE_SIZE)).1 = out.retval
  scattered : 0 ≤ out.retval → ∃ obuf ustack' mid,
    recvBuffer enclave host ustack (sizeT (iov.map Prod.snd).sum) (addrlenptr.getD 0) (controllenptr.getD 0) =
      .ok (obuf, ustack') ∧
    WritesWithin (fun a => enclave.Outside a ∨ InOptBuffer addr (addrlenptr.getD 0) a ∨
      InOptBuffer control (controllenptr.getD 0) a) m.mem mid ∧
    (∀ a, enclave.Outside a → mid a = (host.answer 0).untrusted a) ∧
    out.machine.mem = scatter mid (fun k => (host.answer 0).untrusted (obuf + k)) iov
      (min (sizeT (iov.map Prod.snd).sum) out.retval.toNat)

theorem sizeT_le (n : Nat) : sizeT n ≤ n := Nat.mod_le n _

/-- A failed `ocall_recv` needs only its frame, its stored lengths and its error. -/
theorem RecvConfined.of_neg {enclave : EnclaveRange} {host : OcallHost} {ustack : Nat} {m : CopyMachine}
    {iov : List (Nat × Nat)} {addr addrlenptr control controllenptr : Option Nat} {flags : Nat} {out : RecvOut}
    (neg : out.retval < 0)
    (writes : WritesWithin (fun a => enclave.Outside a ∨ InOptBuffer addr (addrlenptr.getD 0) a ∨
      InOptBuffer control (controllenptr.getD 0) a ∨ ∃ v ∈ iov, InBuffer v.1 v.2 a) m.mem out.machine.mem)
    (storedAddrlen : StoredAtMost addrlenptr out.addrlen) (storedControllen : StoredAtMost controllenptr out.controllen)
    (errno : out.retval = -EPERM ∨ out.retval ∈ recvErrnos ∨
      (host.untrustedCache (alignUp (sizeT (iov.map Prod.snd).sum) PAGE_SIZE)).1 = out.retval) :
    RecvConfined enclave host ustack m iov addr addrlenptr control controllenptr flags out :=
  ⟨writes, fun nonneg => absurd nonneg (by omega), storedAddrlen, storedControllen, fun _ => errno,
    fun nonneg => absurd nonneg (by omega)⟩

theorem ocallRecv_confined (enclave : EnclaveRange) (host : OcallHost) (ustack : Nat) (m : CopyMachine)
    (iov : List (Nat × Nat)) (addr addrlenptr control controllenptr : Option Nat) (flags : Nat) :
    RecvConfined enclave host ustack m iov addr addrlenptr control controllenptr flags
      (ocallRecv enclave host ustack m iov addr addrlenptr control controllenptr flags) := by
  have perm := neg_EPERM_lt_zero
  have total := sizeT_le (iov.map Prod.snd).sum
  have exited : WritesWithin (fun a => enclave.Outside a ∨ InOptBuffer addr (addrlenptr.getD 0) a ∨
      InOptBuffer control (controllenptr.getD 0) a) m.mem (ocallExit enclave (host.answer 0) m).mem :=
    (ocallExit_writesWithin _ m).mono fun _ outside => Or.inl outside
  have withIov : ∀ a, (enclave.Outside a ∨ InOptBuffer addr (addrlenptr.getD 0) a ∨
      InOptBuffer control (controllenptr.getD 0) a) → (enclave.Outside a ∨ InOptBuffer addr (addrlenptr.getD 0) a ∨
      InOptBuffer control (controllenptr.getD 0) a ∨ ∃ v ∈ iov, InBuffer v.1 v.2 a) := by
    rintro a (outside | inAddr | inControl)
    · exact Or.inl outside
    · exact Or.inr (Or.inl inAddr)
    · exact Or.inr (Or.inr (Or.inl inControl))
  unfold ocallRecv
  dsimp only
  cases buffer : recvBuffer enclave host ustack (sizeT (iov.map Prod.snd).sum) (addrlenptr.getD 0)
    (controllenptr.getD 0) with
  | error ret =>
    obtain ⟨neg, source⟩ := recvBuffer_error buffer
    dsimp only
    refine RecvConfined.of_neg neg (WritesWithin.refl _ _) (StoredAtMost.refl _) (StoredAtMost.refl _) ?_
    rcases source with perm | cached
    · exact Or.inl perm
    · exact Or.inr (Or.inr cached)
  | ok buffered =>
    obtain ⟨obuf, ustack'⟩ := buffered
    dsimp only
    cases prepared : recvUntrusted enclave ustack' addr (addrlenptr.getD 0) control (controllenptr.getD 0) with
    | none =>
      exact RecvConfined.of_neg perm (WritesWithin.refl _ _) (StoredAtMost.refl _) (StoredAtMost.refl _) (Or.inl rfl)
    | some untrusted =>
      obtain ⟨untrustedAddr, untrustedControl⟩ := untrusted
      dsimp only
      split_ifs with failed tooLong
      · have filtered : filterErrno recvErrnos _ < 0 := filterErrno_neg failed
        refine RecvConfined.of_neg filtered (exited.mono withIov) (StoredAtMost.refl _) (StoredAtMost.refl _) ?_
        rcases filterErrno_of_neg filtered with perm | listed
        · exact Or.inl perm
        · exact Or.inr (Or.inl listed)
      · exact RecvConfined.of_neg perm (exited.mono withIov) (StoredAtMost.refl _) (StoredAtMost.refl _) (Or.inl rfl)
      -- the host's count passed the checks
      have bounded : (flags &&& MSG_TRUNC = 0 → (host.answer 0).retval ≤ (iov.map Prod.snd).sum) ∧
          (flags &&& MSG_TRUNC ≠ 0 → (host.answer 0).retval < 2 ^ 48) := by
        refine ⟨fun plain => ?_, fun truncated => ?_⟩ <;> omega
      cases first : copyBackIfAny enclave (ocallExit enclave (host.answer 0) m) addr (addrlenptr.getD 0)
        untrustedAddr (host.answer 0).addrlen with
      | none =>
        exact RecvConfined.of_neg perm (exited.mono withIov) (StoredAtMost.refl _) (StoredAtMost.refl _) (Or.inl rfl)
      | some firstOut =>
        obtain ⟨m₁, storedAddrlen⟩ := firstOut
        obtain ⟨writes₁, bound₁⟩ := copyBackIfAny_eq_some first
        have upToFirst := exited.trans (writes₁.mono fun _ inside => Or.inr (Or.inl inside))
        dsimp only
        cases second : copyBackIfAny enclave m₁ control (controllenptr.getD 0) untrustedControl
          (host.answer 0).controllen with
        | none =>
          exact RecvConfined.of_neg perm (upToFirst.mono withIov) (storedAtMost_or bound₁) (StoredAtMost.refl _)
            (Or.inl rfl)
        | some secondOut =>
          obtain ⟨m₂, storedControllen⟩ := secondOut
          obtain ⟨writes₂, bound₂⟩ := copyBackIfAny_eq_some second
          have upToSecond := upToFirst.trans (writes₂.mono fun _ inside => Or.inr (Or.inr inside))
          dsimp only
          cases scattering : recvScatter enclave obuf (min (sizeT (iov.map Prod.snd).sum) (host.answer 0).retval.toNat)
            iov 0 m₂ with
          | mk m₃ ok =>
            have scatterWrites := recvScatter_writesWithin scattering
            have upToScatter := (upToSecond.mono withIov).trans (scatterWrites.mono fun _ inside =>
              Or.inr (Or.inr (Or.inr inside)))
            cases ok
            · exact RecvConfined.of_neg perm upToScatter (storedAtMost_or bound₁) (storedAtMost_or bound₂)
                (Or.inl rfl)
            · -- outside the enclave, the memory the loop reads from is what the host left
              have agrees : ∀ a, enclave.Outside a → m₂.mem a = (host.answer 0).untrusted a := fun a outside =>
                ((copyBackIfAny_writesInside second) a (not_not.mpr outside)).trans
                  (((copyBackIfAny_writesInside first) a (not_not.mpr outside)).trans
                    (ocallExit_outside _ m outside))
              have placed := recvScatter_eq_scatter agrees scattering
              simp only [Nat.add_zero, Nat.sub_zero] at placed
              exact ⟨upToScatter, fun _ => bounded, storedAtMost_or bound₁, storedAtMost_or bound₂,
                fun neg => absurd neg failed, fun _ => ⟨obuf, ustack', m₂.mem, buffer, upToSecond, agrees, placed⟩⟩

/-! ## `ocall_poll` and `ocall_sched_getaffinity` -/

/-- What `ocall_poll` guarantees: enclave memory changes only in the `nfds`
entries of `fds`; the result is at most `nfds`; the timeout left is at most
the one passed; an error is `-EPERM` or one the wrapper lists. -/
structure PollConfined (enclave : EnclaveRange) (m : CopyMachine) (fds nfds : Nat) (timeoutUs : Option Nat)
    (out : PollOut) : Prop where
  writes : WritesWithin (fun a => enclave.Outside a ∨ InBuffer fds (nfds * POLLFD_SIZE) a) m.mem out.machine.mem
  bounded : out.retval ≤ nfds
  storedTimeout : StoredAtMost timeoutUs out.timeoutUs
  errno : out.retval < 0 → out.retval = -EPERM ∨ out.retval ∈ pollErrnos

theorem storedAtMost_map_min (supplied : Option Nat) (bound : Nat) :
    StoredAtMost supplied (supplied.map fun t => min bound t) := by
  intro l stored
  obtain ⟨t, passed, rfl⟩ := Option.map_eq_some_iff.mp stored
  exact ⟨t, passed, Nat.min_le_right bound t⟩

theorem ocallPoll_confined (enclave : EnclaveRange) (host : OcallHost) (ustack : Nat) (m : CopyMachine)
    (fds nfds : Nat) (timeoutUs : Option Nat) :
    PollConfined enclave m fds nfds timeoutUs (ocallPoll enclave host ustack m fds nfds timeoutUs) := by
  have perm := neg_EPERM_lt_zero
  have exited : WritesWithin (fun a => enclave.Outside a ∨ InBuffer fds (nfds * POLLFD_SIZE) a) m.mem
      (ocallExit enclave (host.answer 0) m).mem :=
    (ocallExit_writesWithin _ m).mono fun _ outside => Or.inl outside
  unfold ocallPoll
  dsimp only
  split
  · exact ⟨WritesWithin.refl _ _, by dsimp only; omega, StoredAtMost.refl _, fun _ => Or.inl rfl⟩
  split
  · exact ⟨WritesWithin.refl _ _, by dsimp only; omega, StoredAtMost.refl _, fun _ => Or.inl rfl⟩
  have stored := storedAtMost_map_min timeoutUs
    (if (host.answer 0).retval = 0 then 0 else (host.answer 0).timeoutUs)
  generalize Option.map _ timeoutUs = remaining at stored ⊢
  split_ifs with failed tooMany
  · exact ⟨exited, by dsimp only; omega, stored, filterErrno_of_neg⟩
  · exact ⟨exited, by dsimp only; omega, stored, fun _ => Or.inl rfl⟩
  split
  · exact ⟨exited, by dsimp only; omega, stored, fun _ => Or.inl rfl⟩
  · rename_i m' copied
    have inFds : ∀ a, InBuffer fds (sizeT (nfds * POLLFD_SIZE)) a → InBuffer fds (nfds * POLLFD_SIZE) a :=
      fun a inside => ⟨inside.1, Nat.lt_of_lt_of_le inside.2 (Nat.add_le_add_left (sizeT_le _) fds)⟩
    exact ⟨exited.trans ((sgxCopyToEnclave_writesWithin copied).mono fun a inside => Or.inr (inFds a inside)),
      by dsimp only; omega, stored, fun neg => absurd neg failed⟩

/-- What `ocall_sched_getaffinity` guarantees: enclave memory changes only in
the `cpu_mask_len` words of `cpu_mask`; the result is `0` or an error, `-EPERM`
or one the wrapper lists. -/
structure SchedGetaffinityConfined (enclave : EnclaveRange) (m : CopyMachine) (cpuMask cpuMaskLen : Nat)
    (out : Int × CopyMachine) : Prop where
  writes : WritesWithin (fun a => enclave.Outside a ∨ InBuffer cpuMask (cpuMaskLen * LONG_SIZE) a) m.mem out.2.mem
  nonpos : out.1 ≤ 0
  errno : out.1 < 0 → out.1 = -EPERM ∨ out.1 ∈ schedGetaffinityErrnos

theorem ocallSchedGetaffinity_confined (enclave : EnclaveRange) (host : OcallHost) (ustack : Nat) (m : CopyMachine)
    (fuel threadsCnt cpuMask cpuMaskLen : Nat) :
    ∀ out ∈ ocallSchedGetaffinity enclave host ustack m fuel threadsCnt cpuMask cpuMaskLen,
      SchedGetaffinityConfined enclave m cpuMask cpuMaskLen out := by
  have perm := Int.le_of_lt neg_EPERM_lt_zero
  intro out result
  rw [Option.mem_def] at result
  unfold ocallSchedGetaffinity at result
  split at result
  · cases result
    exact ⟨WritesWithin.refl _ _, perm, fun _ => Or.inl rfl⟩
  dsimp only at result
  split at result
  · cases result
    exact ⟨WritesWithin.refl _ _, perm, fun _ => Or.inl rfl⟩
  obtain ⟨⟨ans, m₁⟩, retried, rfl⟩ := Option.map_eq_some_iff.mp result
  have exited : WritesWithin (fun a => enclave.Outside a ∨ InBuffer cpuMask (cpuMaskLen * LONG_SIZE) a) m.mem
      m₁.mem :=
    (ocallRetryEintr_eq_some retried).2.mono fun _ outside => Or.inl outside
  dsimp only
  split_ifs with failed misaligned
  · have filtered : filterErrno schedGetaffinityErrnos _ < 0 := filterErrno_neg failed
    exact ⟨exited, Int.le_of_lt filtered, fun _ => filterErrno_of_neg filtered⟩
  · exact ⟨exited, perm, fun _ => Or.inl rfl⟩
  split
  · exact ⟨exited, perm, fun _ => Or.inl rfl⟩
  rename_i m₂ copied
  have inMask : ∀ a, InBuffer cpuMask (sizeT (cpuMaskLen * LONG_SIZE)) a →
      InBuffer cpuMask (cpuMaskLen * LONG_SIZE) a :=
    fun a inside => ⟨inside.1, Nat.lt_of_lt_of_le inside.2 (Nat.add_le_add_left (sizeT_le _) cpuMask)⟩
  have copiedIn := exited.trans ((sgxCopyToEnclave_writesWithin copied).mono fun a inside => Or.inr (inMask a inside))
  split_ifs
  · exact ⟨copiedIn, Int.le_refl 0, fun neg => absurd neg (Int.lt_irrefl 0)⟩
  · exact ⟨copiedIn, perm, fun _ => Or.inl rfl⟩

/-! ## The wrappers together -/

/-- For every host, each of the seven wrappers keeps to its guarantees, for
every argument the caller passes. -/
theorem ocallWrappers_confine_host (enclave : EnclaveRange) (host : OcallHost) (ustack : Nat) (m : CopyMachine) :
    (∀ buf count, ReadConfined enclave readErrnos (fun ret => (host.untrustedCache (alignUp count PAGE_SIZE)).1 = ret)
      m buf count (ocallRead enclave host ustack m buf count)) ∧
    (∀ buf count, ReadConfined enclave preadErrnos (fun ret => (host.untrustedCache (alignUp count PAGE_SIZE)).1 = ret)
      m buf count (ocallPread enclave host ustack m buf count)) ∧
    (∀ addr addrlen localAddr localAddrlen, AcceptConfined enclave m addr addrlen localAddr localAddrlen
      (ocallAccept enclave host ustack m addr addrlen localAddr localAddrlen)) ∧
    (∀ fuel nonblocking addr addrlen, ∀ out ∈ ocallConnectSimple enclave host ustack m fuel nonblocking addr addrlen,
      ConnectSimpleConfined enclave m addr addrlen out) ∧
    (∀ iov addr addrlenptr control controllenptr flags,
      RecvConfined enclave host ustack m iov addr addrlenptr control controllenptr flags
        (ocallRecv enclave host ustack m iov addr addrlenptr control controllenptr flags)) ∧
    (∀ fds nfds timeoutUs, PollConfined enclave m fds nfds timeoutUs (ocallPoll enclave host ustack m fds nfds timeoutUs)) ∧
    (∀ fuel threadsCnt cpuMask cpuMaskLen,
      ∀ out ∈ ocallSchedGetaffinity enclave host ustack m fuel threadsCnt cpuMask cpuMaskLen,
        SchedGetaffinityConfined enclave m cpuMask cpuMaskLen out) :=
  ⟨fun buf count => readIntoEnclave_confined readErrnos 24 enclave host ustack m buf count,
    fun buf count => readIntoEnclave_confined preadErrnos 32 enclave host ustack m buf count,
    ocallAccept_confined enclave host ustack m,
    ocallConnectSimple_confined enclave host ustack m,
    ocallRecv_confined enclave host ustack m,
    ocallPoll_confined enclave host ustack m,
    ocallSchedGetaffinity_confined enclave host ustack m⟩

/-- An enclave of one page at `4096`. -/
def onePageEnclave : EnclaveRange := ⟨4096, 8192⟩

/-- Memory of zeros, with no untrusted access yet. -/
def zeroMachine : CopyMachine := ⟨fun _ => 0, []⟩

/-- A host that answers every exit with `retval` and the length `addrlen`,
leaves the byte `7` all over untrusted memory, and has no untrusted cache. -/
def answeringHost (retval : Int) (addrlen : Nat) : OcallHost :=
  ⟨fun _ => ⟨retval, fun _ => 7, addrlen, 0, 0, 0⟩, fun _ => (-ENOMEM, 0)⟩

theorem ocallWrappers_confine_host_reading_five :
    (ocallRead onePageEnclave (answeringHost 5 0) (2 ^ 20) zeroMachine 4096 16).1 = 5 ∧
    ((∀ buf count, ReadConfined onePageEnclave readErrnos
        (fun ret => ((answeringHost 5 0).untrustedCache (alignUp count PAGE_SIZE)).1 = ret) zeroMachine buf count
        (ocallRead onePageEnclave (answeringHost 5 0) (2 ^ 20) zeroMachine buf count)) ∧
      (∀ buf count, ReadConfined onePageEnclave preadErrnos
        (fun ret => ((answeringHost 5 0).untrustedCache (alignUp count PAGE_SIZE)).1 = ret) zeroMachine buf count
        (ocallPread onePageEnclave (answeringHost 5 0) (2 ^ 20) zeroMachine buf count)) ∧
      (∀ addr addrlen localAddr localAddrlen, AcceptConfined onePageEnclave zeroMachine addr addrlen localAddr
        localAddrlen (ocallAccept onePageEnclave (answeringHost 5 0) (2 ^ 20) zeroMachine addr addrlen localAddr
          localAddrlen)) ∧
      (∀ fuel nonblocking addr addrlen,
        ∀ out ∈ ocallConnectSimple onePageEnclave (answeringHost 5 0) (2 ^ 20) zeroMachine fuel nonblocking addr addrlen,
          ConnectSimpleConfined onePageEnclave zeroMachine addr addrlen out) ∧
      (∀ iov addr addrlenptr control controllenptr flags,
        RecvConfined onePageEnclave (answeringHost 5 0) (2 ^ 20) zeroMachine iov addr addrlenptr control controllenptr
          flags (ocallRecv onePageEnclave (answeringHost 5 0) (2 ^ 20) zeroMachine iov addr addrlenptr control
            controllenptr flags)) ∧
      (∀ fds nfds timeoutUs, PollConfined onePageEnclave zeroMachine fds nfds timeoutUs
        (ocallPoll onePageEnclave (answeringHost 5 0) (2 ^ 20) zeroMachine fds nfds timeoutUs)) ∧
      (∀ fuel threadsCnt cpuMask cpuMaskLen,
        ∀ out ∈ ocallSchedGetaffinity onePageEnclave (answeringHost 5 0) (2 ^ 20) zeroMachine fuel threadsCnt cpuMask
          cpuMaskLen, SchedGetaffinityConfined onePageEnclave zeroMachine cpuMask cpuMaskLen out)) :=
  ⟨by decide +kernel, ocallWrappers_confine_host onePageEnclave (answeringHost 5 0) (2 ^ 20) zeroMachine⟩

/-- Two results the guarantees of the wrappers do not bound by what the caller
passed. `ocall_connect_simple` stores back the 128 bytes of a local address
where the caller passed an address of 16: it checks the host's length only
against `sizeof(*addr)`. And `ocall_recv` with `MSG_TRUNC` over iovecs whose
lengths sum to `2^64`, a `size_t` total of `0`, returns the host's count of
`5` bytes with none placed in the iovecs, where the first five received bytes
would be. -/
theorem ocallWrappers_store_beyond_caller :
    (ocallConnectSimple onePageEnclave (answeringHost 0 128) (2 ^ 20) zeroMachine 1 false 4096 16).map
      ConnectSimpleOut.addrlen = some 128 ∧
    (ocallRecv onePageEnclave (answeringHost 5 0) (2 ^ 20) zeroMachine [(4096, 2 ^ 64 - 1), (4096, 1)] none none none
      none MSG_TRUNC).retval = 5 ∧
    (ocallRecv onePageEnclave (answeringHost 5 0) (2 ^ 20) zeroMachine [(4096, 2 ^ 64 - 1), (4096, 1)] none none none
      none MSG_TRUNC).machine.mem 4096 = 0 ∧
    scatter zeroMachine.mem (fun _ => 7) [(4096, 2 ^ 64 - 1), (4096, 1)]
      (min ([(4096, 2 ^ 64 - 1), (4096, 1)].map Prod.snd).sum 5) 4096 = 7 := by
  refine ⟨?_, ?_, ?_, ?_⟩ <;> decide +kernel

end Gramine.Pal.LinuxSgx
