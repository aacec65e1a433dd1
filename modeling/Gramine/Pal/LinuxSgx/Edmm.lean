import Gramine.Common.Errno
import Gramine.Pal.LinuxSgx.UntrustedCopy

/-!
# EDMM page operations against the EPCM

With EDMM (`enclave_edmm.c`) the enclave changes its pages with the host's
help. The host adds a page (`EAUG`), restricts its permissions (`EMODPR`) or
changes its type (`EMODT`); the enclave extends permissions itself (`EMODPE`)
and confirms each change of the host with `EACCEPT`, which succeeds only if
the page's EPCM entry is exactly what the enclave says it expects.

The model keeps the EPCM as a record per page address, with the effect and
the preconditions of each instruction as the SDM gives them. The host acts on
the EPCM in `ocall_edmm_restrict_pages_perm`, `ocall_edmm_modify_pages_type`
and `ocall_edmm_remove_pages`, where it runs any host instructions on any pages
and returns anything, and when an `EACCEPT` faults on a page not yet added,
where its driver adds the page or does not. The `-EINTR` retry loop of an
ocall is one answer: the instructions of all its exits and the first return
value that is not `-EINTR`. Asynchronous exits, which would
give the host an ocall's power at any point, are left out. A failed
`EACCEPT`, a fault of `EMODPE` and `die_or_inf_loop()` end the process.
Permissions are the R, W and X bits, all that `PAL_TO_SGX_PROT` sets.
-/

namespace Gramine.Pal.LinuxSgx

/-- `enum sgx_page_type`. -/
inductive SgxPageType
  | secs
  | tcs
  | reg
  | va
  | trim
  deriving DecidableEq, Repr

/-- The R, W and X bits of SGX page permissions. -/
structure SgxPerm where
  r : Bool
  w : Bool
  x : Bool
  deriving DecidableEq, Repr

/-- RW, the permissions of a page `EAUG` adds. -/
def SgxPerm.rw : SgxPerm := ⟨true, true, false⟩

/-- No permission, those of a page `EMODT` changes. -/
def SgxPerm.empty : SgxPerm := ⟨false, false, false⟩

def SgxPerm.union (a b : SgxPerm) : SgxPerm := ⟨a.r || b.r, a.w || b.w, a.x || b.x⟩

def SgxPerm.inter (a b : SgxPerm) : SgxPerm := ⟨a.r && b.r, a.w && b.w, a.x && b.x⟩

/-- `if (prot & SGX_SECINFO_FLAGS_W) prot |= SGX_SECINFO_FLAGS_R;`: the
hardware wants R with W. -/
def SgxPerm.withRead (prot : SgxPerm) : SgxPerm := if prot.w then { prot with r := true } else prot

/-- The flags of `sgx_arch_sec_info_t`. -/
structure Secinfo where
  perm : SgxPerm
  pending : Bool
  modified : Bool
  pr : Bool
  pageType : SgxPageType
  deriving DecidableEq, Repr

/-- The EPCM entry of a page. -/
structure EpcmEntry where
  valid : Bool
  pageType : SgxPageType
  perm : SgxPerm
  pending : Bool
  modified : Bool
  pr : Bool
  deriving DecidableEq, Repr

/-- The EPCM, by page address. -/
abbrev Epcm := Nat → EpcmEntry

/-- The entry of a page in use as `pageType` with `perm`: valid, with no
change of the host waiting for `EACCEPT`. -/
def EpcmEntry.committed (pageType : SgxPageType) (perm : SgxPerm) : EpcmEntry :=
  ⟨true, pageType, perm, false, false, false⟩

/-- A page the enclave uses: valid, regular or TCS, with no change of the host
waiting for `EACCEPT`. -/
def EpcmEntry.inUse (e : EpcmEntry) : Bool :=
  e.valid && (e.pageType == .reg || e.pageType == .tcs) && !e.pending && !e.modified

/-- `EACCEPT` of the page at `addr`: the flags must be consistent, and the
entry valid and as the flags say, with PR set if they ask for it; then no
change waits on the page. -/
def eaccept (epcm : Epcm) (addr : Nat) (secinfo : Secinfo) : Option Epcm :=
  let e := epcm addr
  if (secinfo.pr && secinfo.modified) || (secinfo.pending && secinfo.modified) || (secinfo.pending && secinfo.pr) then
    none
  else if e.valid && e.pending == secinfo.pending && e.modified == secinfo.modified && e.perm == secinfo.perm &&
      e.pageType == secinfo.pageType && (!secinfo.pr || e.pr) then
    some (Function.update epcm addr { e with pending := false, modified := false, pr := false })
  else none

/-- `EMODPE`: a valid regular page with no change waiting gets the union of
its permissions and `perm`; otherwise it faults. -/
def emodpe (epcm : Epcm) (addr : Nat) (perm : SgxPerm) : Option Epcm :=
  let e := epcm addr
  if e.valid && e.pageType == .reg && !e.pending && !e.modified then
    some (Function.update epcm addr { e with perm := e.perm.union perm })
  else none

/-- The host's instructions on enclave pages. -/
inductive HostOp
  | eaug (addr : Nat)
  | emodpr (addr : Nat) (perm : SgxPerm)
  | emodt (addr : Nat) (pageType : SgxPageType)
  | eremove (addr : Nat)
  deriving DecidableEq, Repr

/-- One host instruction; one whose preconditions fail changes nothing. -/
def HostOp.run : HostOp → Epcm → Epcm
  | .eaug addr, epcm =>
    if (epcm addr).valid then epcm else Function.update epcm addr ⟨true, .reg, .rw, true, false, false⟩
  | .emodpr addr perm, epcm =>
    let e := epcm addr
    if e.valid && e.pageType == .reg && !e.pending && !e.modified && (!perm.w || perm.r) then
      Function.update epcm addr { e with perm := e.perm.inter perm, pr := true }
    else epcm
  | .emodt addr pageType, epcm =>
    let e := epcm addr
    if e.valid && (e.pageType == .reg || e.pageType == .tcs) && !e.pending && !e.modified &&
        (pageType == .tcs || pageType == .trim) then
      Function.update epcm addr { e with pageType, perm := .empty, modified := true }
    else epcm
  | .eremove addr, epcm => Function.update epcm addr { epcm addr with valid := false }

/-- The host: what it runs in each ocall and what it returns, and whether its
driver adds a page an `EACCEPT` faults on. -/
structure EdmmHost where
  restrictPagesPerm : Nat → Nat → SgxPerm → Epcm → List HostOp × Int
  modifyPagesType : Nat → Nat → SgxPageType → Epcm → List HostOp × Int
  removePages : Nat → Nat → Epcm → List HostOp × Int
  eaugOnFault : Nat → Bool

/-- The host's instructions, in order. -/
def hostRun (ops : List HostOp) (epcm : Epcm) : Epcm := ops.foldl (fun epcm op => op.run epcm) epcm

/-- What `ocall_edmm_*` make of the host's return value: `-EINVAL`, `-EPERM`
and `-EFAULT` pass, any other error becomes `-EPERM`, and success is `0`. -/
def edmmOcallResult (ret : Int) : Int :=
  if ret < 0 then
    if ret ≠ -EINVAL ∧ ret ≠ -EPERM ∧ ret ≠ -EFAULT then -EPERM else ret
  else 0

/-- An ocall: the host's instructions over all its exits, and the result of
the wrapper for the first return value that is not `-EINTR`. -/
def runOcall (answer : List HostOp × Int) (epcm : Epcm) : Epcm × Int :=
  (hostRun answer.1 epcm, edmmOcallResult answer.2)

/-- `sgx_eaccept(addr, flags)`: on a page not yet added `EACCEPT` faults, and
the driver may add the page and run it again. -/
def sgxEaccept (host : EdmmHost) (epcm : Epcm) (addr : Nat) (secinfo : Secinfo) : Option Epcm :=
  if !(epcm addr).valid && host.eaugOnFault addr then eaccept ((HostOp.eaug addr).run epcm) addr secinfo
  else eaccept epcm addr secinfo

/-- The pages `addr + i * PAGE_SIZE` for `i < count`. -/
def edmmPages (addr count : Nat) : List Nat := (List.range count).map fun i => addr + i * PAGE_SIZE

/-- A loop of `sgx_eaccept` over pages that dies at the first failure. -/
def acceptPages (host : EdmmHost) (secinfo : Secinfo) : List Nat → Epcm → Option Epcm
  | [], epcm => some epcm
  | page :: pages, epcm => (sgxEaccept host epcm page secinfo).bind (acceptPages host secinfo pages)

/-- A loop of `sgx_emodpe` over pages. -/
def emodpePages (perm : SgxPerm) : List Nat → Epcm → Option Epcm
  | [], epcm => some epcm
  | page :: pages, epcm => (emodpe epcm page perm).bind (emodpePages perm pages)

/-- How a call ends: it returns `0`; it returns `unix_to_pal_error(ret)` for
the ocall result `ret`; or the process dies. -/
inductive EdmmOutcome
  | ok (epcm : Epcm)
  | error (ret : Int) (epcm : Epcm)
  | died

def EdmmOutcome.isOk : EdmmOutcome → Bool
  | .ok _ => true
  | _ => false

/-- What an outcome guarantees: on success every page of `pages` is `good`;
an error return is one `failed` allows; a process that died shows nothing. -/
def EdmmOutcome.Establishes (pages : List Nat) (good : EpcmEntry → Prop) (failed : Int → Prop) :
    EdmmOutcome → Prop
  | .ok epcm => ∀ p ∈ pages, good (epcm p)
  | .error ret _ => failed ret
  | .died => True

/-- The errors `ocall_edmm_*` return. -/
def IsEdmmOcallError (ret : Int) : Prop := ret = -EPERM ∨ ret = -EINVAL ∨ ret = -EFAULT

/-- The end of `sgx_edmm_add_pages` and `sgx_edmm_set_page_permissions`: the
host restricts the pages to `prot` in `ocall_edmm_restrict_pages_perm`, and
each page's restriction is accepted. -/
def restrictAndAccept (host : EdmmHost) (epcm : Epcm) (addr count : Nat) (prot : SgxPerm) : EdmmOutcome :=
  let (epcm, ret) := runOcall (host.restrictPagesPerm addr count prot epcm) epcm
  if ret < 0 then .died
  else
    match acceptPages host ⟨prot, false, false, true, .reg⟩ (edmmPages addr count) epcm with
    | none => .died
    | some epcm => .ok epcm

/-- `sgx_edmm_add_pages(addr, count, prot)`. -/
def sgxEdmmAddPages (host : EdmmHost) (epcm : Epcm) (addr count : Nat) (prot : SgxPerm) : EdmmOutcome :=
  let prot := prot.withRead
  let pages := edmmPages addr count
  match acceptPages host ⟨.rw, true, false, false, .reg⟩ pages epcm with
  | none => .died
  | some epcm =>
    -- `prot & ~(R | W)`: an X bit, which only EMODPE can add
    match (if prot.x then emodpePages prot pages epcm else some epcm) with
    | none => .died
    | some epcm =>
      -- `~prot & (R | W)`: R or W to take away, which only the host can do
      if !prot.r || !prot.w then restrictAndAccept host epcm addr count prot else .ok epcm

/-- `sgx_edmm_set_page_permissions(addr, count, prot)`. -/
def sgxEdmmSetPagePermissions (host : EdmmHost) (epcm : Epcm) (addr count : Nat) (prot : SgxPerm) :
    EdmmOutcome :=
  let prot := prot.withRead
  match emodpePages prot (edmmPages addr count) epcm with
  | none => .died
  | some epcm => restrictAndAccept host epcm addr count prot

/-- `sgx_edmm_convert_pages_to_tcs(addr, count)`. -/
def sgxEdmmConvertPagesToTcs (host : EdmmHost) (epcm : Epcm) (addr count : Nat) : EdmmOutcome :=
  let (epcm, ret) := runOcall (host.modifyPagesType addr count .tcs epcm) epcm
  if ret < 0 then .error ret epcm
  else
    match acceptPages host ⟨.empty, false, true, false, .tcs⟩ (edmmPages addr count) epcm with
    | none => .died
    | some epcm => .ok epcm

/-- `sgx_edmm_remove_pages(addr, count)`. -/
def sgxEdmmRemovePages (host : EdmmHost) (epcm : Epcm) (addr count : Nat) : EdmmOutcome :=
  let (epcm, ret) := runOcall (host.modifyPagesType addr count .trim epcm) epcm
  if ret < 0 then .error ret epcm
  else
    match acceptPages host ⟨.empty, false, true, false, .trim⟩ (edmmPages addr count) epcm with
    | none => .died
    | some epcm =>
      let (epcm, ret) := runOcall (host.removePages addr count epcm) epcm
      if ret < 0 then .died else .ok epcm

/-! ## What the instructions leave -/

attribute [grind] SgxPerm.rw SgxPerm.empty SgxPerm.union EpcmEntry.committed EpcmEntry.inUse
  HostOp.run

theorem SgxPerm.union_union_self (a b : SgxPerm) : (a.union b).union b = a.union b := by
  cases a
  cases b
  simp [SgxPerm.union]

theorem SgxPerm.withRead_r_of_w {prot : SgxPerm} (w : prot.withRead.w = true) : prot.withRead.r = true := by
  unfold SgxPerm.withRead at w ⊢
  split_ifs at w ⊢ <;> simp_all

/-- A successful `EACCEPT` leaves its page in use as the flags say, and no
other page changed. -/
theorem eaccept_eq_some {epcm epcm' : Epcm} {addr : Nat} {secinfo : Secinfo}
    (h : eaccept epcm addr secinfo = some epcm') :
    epcm' = Function.update epcm addr (.committed secinfo.pageType secinfo.perm) := by
  unfold eaccept at h
  dsimp only at h
  split_ifs at h with inconsistent agrees
  simp only [Bool.and_eq_true, beq_iff_eq, Bool.or_eq_true, Bool.not_eq_true'] at agrees
  obtain ⟨⟨⟨⟨⟨valid, -⟩, -⟩, perm⟩, pageType⟩, -⟩ := agrees
  rw [← Option.some.inj h, EpcmEntry.committed, ← valid, ← perm, ← pageType]

/-- So does `sgx_eaccept`, whether or not the driver added the page first. -/
theorem sgxEaccept_eq_some {host : EdmmHost} {epcm epcm' : Epcm} {addr : Nat} {secinfo : Secinfo}
    (h : sgxEaccept host epcm addr secinfo = some epcm') :
    epcm' = Function.update epcm addr (.committed secinfo.pageType secinfo.perm) := by
  unfold sgxEaccept at h
  split_ifs at h with faulted
  · simp only [Bool.and_eq_true, Bool.not_eq_true'] at faulted
    rw [eaccept_eq_some h, HostOp.run, if_neg (by simp [faulted.1]), Function.update_idem]
  · exact eaccept_eq_some h

/-- After a loop of `EACCEPT`s that did not die, every page of the loop is in
use as the flags say, and every other page is as it was. -/
theorem acceptPages_eq_some {host : EdmmHost} {secinfo : Secinfo} :
    ∀ {pages : List Nat} {epcm epcm' : Epcm}, acceptPages host secinfo pages epcm = some epcm' →
      ∀ p, epcm' p = if p ∈ pages then .committed secinfo.pageType secinfo.perm else epcm p
  | [], _, _, h, p => by
    cases h
    simp
  | page :: pages, epcm, epcm', h, p => by
    obtain ⟨next, accepted, rest⟩ := Option.bind_eq_some_iff.mp h
    rw [acceptPages_eq_some rest p, sgxEaccept_eq_some accepted]
    by_cases later : p ∈ pages
    · simp [later]
    · by_cases here : p = page
      · simp [here]
      · simp [later, here]

/-- A successful `EMODPE` extends the permissions of its page and of no other. -/
theorem emodpe_eq_some {epcm epcm' : Epcm} {addr : Nat} {perm : SgxPerm} (h : emodpe epcm addr perm = some epcm') :
    epcm' = Function.update epcm addr { epcm addr with perm := (epcm addr).perm.union perm } := by
  unfold emodpe at h
  dsimp only at h
  split_ifs at h
  exact (Option.some.inj h).symm

/-- After a loop of `EMODPE`s that did not fault, every page of the loop has
the union of its permissions and `perm`, however often the loop met it. -/
theorem emodpePages_eq_some {perm : SgxPerm} :
    ∀ {pages : List Nat} {epcm epcm' : Epcm}, emodpePages perm pages epcm = some epcm' →
      ∀ p, epcm' p = if p ∈ pages then { epcm p with perm := (epcm p).perm.union perm } else epcm p
  | [], _, _, h, p => by
    cases h
    simp
  | page :: pages, epcm, epcm', h, p => by
    obtain ⟨next, extended, rest⟩ := Option.bind_eq_some_iff.mp h
    rw [emodpePages_eq_some rest p, emodpe_eq_some extended]
    by_cases here : p = page
    · subst here
      by_cases later : p ∈ pages <;> simp [later, SgxPerm.union_union_self]
    · by_cases later : p ∈ pages <;> simp [later, here]

theorem acceptPages_committed {host : EdmmHost} {secinfo : Secinfo} {pages : List Nat} {epcm epcm' : Epcm}
    (accepted : acceptPages host secinfo pages epcm = some epcm') :
    ∀ p ∈ pages, epcm' p = .committed secinfo.pageType secinfo.perm := fun p mem => by
  rw [acceptPages_eq_some accepted p, if_pos mem]

theorem edmmOcallResult_of_neg {ret : Int} (failed : edmmOcallResult ret < 0) :
    IsEdmmOcallError (edmmOcallResult ret) := by
  unfold IsEdmmOcallError
  unfold edmmOcallResult at failed ⊢
  split_ifs at failed ⊢ with neg other
  · exact Or.inl rfl
  · simp only [ne_eq, not_and, not_not] at other
    by_cases inval : ret = -EINVAL
    · exact Or.inr (Or.inl inval)
    by_cases perm : ret = -EPERM
    · exact Or.inl perm
    · exact Or.inr (Or.inr (other inval perm))
  · exact absurd failed (Int.lt_irrefl 0)

theorem SgxPerm.rw_union_of_rw {prot : SgxPerm} (r : prot.r = true) (w : prot.w = true) :
    SgxPerm.rw.union prot = prot := by
  cases prot
  simp_all [SgxPerm.rw, SgxPerm.union]

theorem SgxPerm.rw_eq_of_rw {prot : SgxPerm} (r : prot.r = true) (w : prot.w = true) (x : prot.x = false) :
    SgxPerm.rw = prot := by
  cases prot
  simp_all [SgxPerm.rw]

/-- Whatever the host did, the restriction ends with every page exactly
`prot` or the process dead: `EACCEPT` with PR matches the whole entry. -/
theorem restrictAndAccept_establishes (host : EdmmHost) (epcm : Epcm) (addr count : Nat) (prot : SgxPerm)
    (failed : Int → Prop) :
    (restrictAndAccept host epcm addr count prot).Establishes (edmmPages addr count)
      (· = .committed .reg prot) failed := by
  unfold restrictAndAccept
  generalize runOcall (host.restrictPagesPerm addr count prot epcm) epcm = answer
  obtain ⟨epcm₁, ret⟩ := answer
  dsimp only
  split
  · trivial
  split
  · trivial
  · rename_i accepted
    exact acceptPages_committed accepted

theorem sgxEdmmAddPages_establishes (host : EdmmHost) (epcm : Epcm) (addr count : Nat) (prot : SgxPerm) :
    (sgxEdmmAddPages host epcm addr count prot).Establishes (edmmPages addr count)
      (· = .committed .reg prot.withRead) fun _ => False := by
  simp only [sgxEdmmAddPages]
  generalize prot.withRead = prot
  split
  · trivial
  rename_i epcm₁ accepted
  split
  · trivial
  rename_i epcm₂ extended
  split_ifs with restricted
  · exact restrictAndAccept_establishes host epcm₂ addr count prot _
  -- R and W are both asked for, so the pages keep the RW of their EAUG,
  -- with the X that EMODPE added if one was asked for
  simp only [Bool.or_eq_true, Bool.not_eq_true', not_or, Bool.not_eq_false] at restricted
  intro p mem
  show epcm₂ p = _
  have committed := acceptPages_committed accepted p mem
  split_ifs at extended with x
  · rw [emodpePages_eq_some extended p, if_pos mem, committed]
    simp only [EpcmEntry.committed, SgxPerm.rw_union_of_rw restricted.1 restricted.2]
  · cases extended
    rw [committed, SgxPerm.rw_eq_of_rw restricted.1 restricted.2 (by simpa using x)]

theorem sgxEdmmSetPagePermissions_establishes (host : EdmmHost) (epcm : Epcm) (addr count : Nat) (prot : SgxPerm) :
    (sgxEdmmSetPagePermissions host epcm addr count prot).Establishes (edmmPages addr count)
      (· = .committed .reg prot.withRead) fun _ => False := by
  simp only [sgxEdmmSetPagePermissions]
  split
  · trivial
  · exact restrictAndAccept_establishes host _ addr count prot.withRead _

theorem sgxEdmmConvertPagesToTcs_establishes (host : EdmmHost) (epcm : Epcm) (addr count : Nat) :
    (sgxEdmmConvertPagesToTcs host epcm addr count).Establishes (edmmPages addr count)
      (· = .committed .tcs .empty) IsEdmmOcallError := by
  unfold sgxEdmmConvertPagesToTcs
  generalize answered : runOcall (host.modifyPagesType addr count .tcs epcm) epcm = answer
  obtain ⟨epcm₁, ret⟩ := answer
  dsimp only
  split
  · rename_i failed
    have filtered : edmmOcallResult (host.modifyPagesType addr count .tcs epcm).2 = ret := congrArg Prod.snd answered
    rw [← filtered] at failed ⊢
    exact edmmOcallResult_of_neg failed
  split
  · trivial
  · rename_i accepted
    exact acceptPages_committed accepted

/-! ## What the host alone can do -/

/-- No host instruction puts a page into use: `EAUG` leaves it pending,
`EMODT` modified, `EREMOVE` invalid, and `EMODPR` needs it in use already. -/
theorem HostOp.run_not_inUse (op : HostOp) {epcm : Epcm} {p : Nat} (idle : (epcm p).inUse = false) :
    (op.run epcm p).inUse = false := by
  cases op with
  | eaug addr =>
    simp only [HostOp.run]
    split_ifs
    · exact idle
    by_cases here : p = addr
    · simp [here, EpcmEntry.inUse]
    · rwa [Function.update_of_ne here]
  | emodpr addr perm =>
    simp only [HostOp.run]
    split_ifs
    · by_cases here : p = addr
      · subst here
        simpa [EpcmEntry.inUse] using idle
      · rwa [Function.update_of_ne here]
    · exact idle
  | emodt addr pageType =>
    simp only [HostOp.run]
    split_ifs
    · by_cases here : p = addr
      · simp [here, EpcmEntry.inUse]
      · rwa [Function.update_of_ne here]
    · exact idle
  | eremove addr =>
    by_cases here : p = addr
    · simp [HostOp.run, here, EpcmEntry.inUse]
    · rwa [HostOp.run, Function.update_of_ne here]

theorem hostRun_not_inUse :
    ∀ (ops : List HostOp) {epcm : Epcm} {p : Nat}, (epcm p).inUse = false → (hostRun ops epcm p).inUse = false
  | [], _, _, idle => idle
  | op :: ops, _, _, idle => hostRun_not_inUse ops (op.run_not_inUse idle)

/-- After `sgx_edmm_remove_pages` returns `0` no page of the range is in use,
whatever the host did in its two ocalls: once the enclave has accepted a page
as trimmed, the host can bring it back only through `EAUG`, as a pending page
the enclave would have to accept. An error it returns is that of its first
ocall. -/
theorem sgxEdmmRemovePages_not_inUse (host : EdmmHost) (epcm : Epcm) (addr count : Nat) :
    (sgxEdmmRemovePages host epcm addr count).Establishes (edmmPages addr count)
      (fun e => e.inUse = false) IsEdmmOcallError := by
  unfold sgxEdmmRemovePages
  generalize trimmed : runOcall (host.modifyPagesType addr count .trim epcm) epcm = answer
  obtain ⟨epcm₁, ret⟩ := answer
  dsimp only
  split
  · rename_i failed
    have filtered : edmmOcallResult (host.modifyPagesType addr count .trim epcm).2 = ret := congrArg Prod.snd trimmed
    rw [← filtered] at failed ⊢
    exact edmmOcallResult_of_neg failed
  split
  · trivial
  rename_i epcm₂ accepted
  generalize removed : runOcall (host.removePages addr count epcm₂) epcm₂ = answer
  obtain ⟨epcm₃, ret⟩ := answer
  dsimp only
  split
  · trivial
  intro p mem
  have hostRan : hostRun (host.removePages addr count epcm₂).1 epcm₂ = epcm₃ := congrArg Prod.fst removed
  rw [← hostRan]
  apply hostRun_not_inUse
  rw [acceptPages_committed accepted p mem]
  rfl

/-- The three calls leave every page of the range exactly as asked, whatever
the host does in its ocalls and whatever it returns: a regular page with `prot`
and R wherever W is, or a TCS page. Where they do not, the process died, or
`sgx_edmm_convert_pages_to_tcs` returns the error of its ocall. -/
theorem sgxEdmm_pages_exactly_as_requested (host : EdmmHost) (epcm : Epcm) (addr count : Nat) (prot : SgxPerm) :
    (prot.withRead.w = true → prot.withRead.r = true) ∧
    (sgxEdmmAddPages host epcm addr count prot).Establishes (edmmPages addr count)
      (· = .committed .reg prot.withRead) (fun _ => False) ∧
    (sgxEdmmSetPagePermissions host epcm addr count prot).Establishes (edmmPages addr count)
      (· = .committed .reg prot.withRead) (fun _ => False) ∧
    (sgxEdmmConvertPagesToTcs host epcm addr count).Establishes (edmmPages addr count)
      (· = .committed .tcs .empty) IsEdmmOcallError :=
  ⟨SgxPerm.withRead_r_of_w, sgxEdmmAddPages_establishes host epcm addr count prot,
    sgxEdmmSetPagePermissions_establishes host epcm addr count prot,
    sgxEdmmConvertPagesToTcs_establishes host epcm addr count⟩

/-- An enclave with no page. -/
def noPages : Epcm := fun _ => ⟨false, .reg, .empty, false, false, false⟩

/-- A host that does in each ocall what it is asked, on the pages it is asked. -/
def faithfulHost : EdmmHost where
  restrictPagesPerm addr count prot _ := ((edmmPages addr count).map fun page => .emodpr page prot, 0)
  modifyPagesType addr count pageType _ := ((edmmPages addr count).map fun page => .emodt page pageType, 0)
  removePages addr count _ := ((edmmPages addr count).map .eremove, 0)
  eaugOnFault _ := true

theorem sgxEdmm_pages_exactly_as_requested_faithful :
    (sgxEdmmAddPages faithfulHost noPages 4096 2 ⟨true, false, false⟩).isOk = true ∧
    ((⟨true, false, false⟩ : SgxPerm).withRead.w = true → (⟨true, false, false⟩ : SgxPerm).withRead.r = true) ∧
    (sgxEdmmAddPages faithfulHost noPages 4096 2 ⟨true, false, false⟩).Establishes (edmmPages 4096 2)
      (· = .committed .reg (⟨true, false, false⟩ : SgxPerm).withRead) (fun _ => False) ∧
    (sgxEdmmSetPagePermissions faithfulHost noPages 4096 2 ⟨true, false, false⟩).Establishes (edmmPages 4096 2)
      (· = .committed .reg (⟨true, false, false⟩ : SgxPerm).withRead) (fun _ => False) ∧
    (sgxEdmmConvertPagesToTcs faithfulHost noPages 4096 2).Establishes (edmmPages 4096 2)
      (· = .committed .tcs .empty) IsEdmmOcallError :=
  ⟨by decide +kernel, sgxEdmm_pages_exactly_as_requested faithfulHost noPages 4096 2 ⟨true, false, false⟩⟩

/-- A host that fails `ocall_edmm_modify_pages_type` and does nothing else. -/
def refusingHost : EdmmHost where
  restrictPagesPerm _ _ _ _ := ([], 0)
  modifyPagesType _ _ _ _ := ([], -EPERM)
  removePages _ _ _ := ([], 0)
  eaugOnFault _ := false

theorem sgxEdmmConvertPagesToTcs_returns_refusal :
    sgxEdmmConvertPagesToTcs refusingHost noPages 4096 1 = .error (-EPERM) noPages := by
  rfl

end Gramine.Pal.LinuxSgx
