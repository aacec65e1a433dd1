import Mathlib
import Gramine.Pal.Error

/-!
# Passing a PAL handle to another enclave

`_PalSendHandle` (`pal/src/host/linux-sgx/pal_streams.c`) sends a handle in
three messages: a `struct hdl_header` in the clear, a dummy payload carrying
the host file descriptor as ancillary data, and the serialised handle through
the TLS channel of the process handle. `_PalReceiveHandle` receives them in
that order and rebuilds the handle with `handle_deserialize`.

The serialised handle is the `sizeof(struct pal_handle)` bytes of the handle,
here `hdlSize`, followed by one field that depends on the type (a realpath or
a saved TLS context). Everything outside TLS is the host's: the header, the
results of both `recv` calls and the control message. The TLS channel delivers,
on each read, an error or some of the next bytes the peer wrote.

The buffer `hdl_data` is the list of bytes the TLS read delivered into it; a
read of `hdl_data[i]` past them is a read of a byte that did not come through
TLS (uninitialised stack, or past the array), and is `none`.
-/

namespace Gramine.Pal.LinuxSgx

open Gramine.Pal

/-- `sizeof(struct hdl_header)`: a `bool` padded to the `size_t` after it. -/
def HDL_HEADER_SIZE : Nat := 16

/-- `sizeof(struct cmsghdr)`. -/
def CMSGHDR_SIZE : Nat := 16

/-- `SCM_RIGHTS`. -/
def SCM_RIGHTS : Nat := 1

/-- `CMSG_LEN(sizeof(int))`. -/
def CMSG_LEN_INT : Nat := CMSGHDR_SIZE + 4

/-- The values of `hdr.type` that `handle_deserialize` knows. -/
def PAL_TYPE_FILE : Nat := 0
def PAL_TYPE_PIPE : Nat := 1
def PAL_TYPE_PIPESRV : Nat := 2
def PAL_TYPE_PIPECLI : Nat := 3
def PAL_TYPE_CONSOLE : Nat := 4
def PAL_TYPE_DEV : Nat := 5
def PAL_TYPE_DIR : Nat := 6
def PAL_TYPE_SOCKET : Nat := 7
def PAL_TYPE_PROCESS : Nat := 8
def PAL_TYPE_EVENTFD : Nat := 11

/-- `struct hdl_header`. -/
structure HdlHeader where
  hasFd : Bool
  dataSize : Nat

/-- The host's part of a handle transfer: what the two `ocall_recv` calls
return, the header and the control message they fill in. -/
structure ReceiveHost where
  headerRet : Int
  header : HdlHeader
  dummyRet : Int
  controlBufSize : Nat
  cmsgType : Nat
  cmsgLen : Nat
  cmsgFd : Int

/-- `hdr.type` of a serialised handle: the little-endian `PAL_IDX` at its start. -/
def handleType (handle : List UInt8) : Nat :=
  (handle.take 4).foldr (fun byte value => byte.toNat + 256 * value) 0

/-- A handle as `handle_deserialize` rebuilds it: its bytes and the trailing
field it copied (a realpath or a saved TLS context), before the fields the
receiver sets itself. -/
structure DeserializedHandle where
  bytes : List UInt8
  field : Option (List UInt8)

/-- The `count` bytes of `data` from `start` that a `memcpy` reads, each of
which must have come through TLS. -/
def readBytes (data : List UInt8) : Nat → Nat → Option (List UInt8)
  | _, 0 => some []
  | start, count + 1 => do
      let byte ← data[start]?
      let rest ← readBytes data (start + 1) count
      return byte :: rest

/-- `handle_deserialize(handle, data, size, host_fd)`: `memcpy` of the
handle's own bytes, then the per-type copy of the trailing field of
`size - hdl_size` bytes (a `size_t` subtraction). -/
def handleDeserialize (hdlSize : Nat) (data : List UInt8) (size : Nat) :
    Option (Except PalError DeserializedHandle) := do
  let bytes ← readBytes data 0 hdlSize
  let fieldSize := (size + 2 ^ 64 - hdlSize) % 2 ^ 64
  let type := handleType bytes
  if type = PAL_TYPE_PIPE ∨ type = PAL_TYPE_PIPECLI ∨ type = PAL_TYPE_PROCESS ∨
      type = PAL_TYPE_DEV ∨ type = PAL_TYPE_FILE ∨ type = PAL_TYPE_DIR then
    let field ← readBytes data hdlSize fieldSize
    return .ok ⟨bytes, some field⟩
  else if type = PAL_TYPE_PIPESRV ∨ type = PAL_TYPE_CONSOLE ∨ type = PAL_TYPE_SOCKET ∨
      type = PAL_TYPE_EVENTFD then
    return .ok ⟨bytes, none⟩
  else return .error .badHandle

/-- Why `_PalReceiveHandle` failed: a PAL error, or `unix_to_pal_error` of
what a failed `ocall_recv` returned. -/
inductive ReceiveFailure where
  | pal (err : PalError)
  | host (ret : Int)

/-- `_PalReceiveHandle` on a process handle with a TLS context: `secureRead`
is the channel's answer to the read of `data_size` bytes, and `peer` the bytes
the peer wrote into the channel. The result is the rebuilt handle with the
host descriptor it receives. -/
def palReceiveHandle (hdlSize : Nat) (host : ReceiveHost) (peer : List UInt8)
    (secureRead : Nat → Except PalError Nat) :
    Option (Except ReceiveFailure (DeserializedHandle × Int)) := do
  if host.headerRet < 0 then return .error (.host host.headerRet)
  if host.headerRet ≠ HDL_HEADER_SIZE then return .error (.pal .denied)
  if host.dummyRet < 0 then return .error (.host host.dummyRet)
  if host.controlBufSize < CMSGHDR_SIZE then return .error (.pal .denied)
  -- `char hdl_data[hdl_hdr.data_size]` is sized by the header from the host
  match secureRead host.header.dataSize with
  | .error err => return .error (.pal err)
  | .ok received =>
      -- the count the read returns is not compared with `data_size`
      let data := peer.take received
      if host.cmsgType ≠ SCM_RIGHTS then return .error (.pal .denied)
      if host.header.hasFd ∧ host.cmsgLen ≠ CMSG_LEN_INT then return .error (.pal .denied)
      let hostFd := if host.header.hasFd then host.cmsgFd else -1
      match ← handleDeserialize hdlSize data host.header.dataSize with
      | .error err => return .error (.pal err)
      | .ok handle => return .ok (handle, hostFd)

/-- The bytes of enclave stack that `_PalReceiveHandle` allocates for
`hdl_data` once the header has arrived. -/
def palReceiveHandleStackBytes (host : ReceiveHost) : Nat := host.header.dataSize

/-! ## Copies out of `hdl_data` -/

attribute [grind] handleDeserialize palReceiveHandle

/-- A `memcpy` of bytes that were all received copies them. -/
theorem readBytes_eq_some {data : List UInt8} {start count : Nat}
    (received : start + count ≤ data.length) :
    readBytes data start count = some ((data.drop start).take count) := by
  induction count generalizing start with
  | zero => simp [readBytes]
  | succ count inductionHypothesis =>
      have here : start < data.length := by omega
      have rest : readBytes data (start + 1) count = some ((data.drop (start + 1)).take count) :=
        inductionHypothesis (by omega)
      rw [readBytes.eq_2, List.getElem?_eq_getElem here, List.drop_eq_getElem_cons here,
        List.take_succ_cons]
      simp only [bind, Option.bind, rest]
      rfl

/-- A `memcpy` that reaches past the received bytes reads one that was not. -/
theorem readBytes_eq_none {data : List UInt8} {start count : Nat}
    (beyond : data.length < start + count + 1) : readBytes data start (count + 1) = none := by
  induction count generalizing start with
  | zero =>
      have missing : data[start]? = none := List.getElem?_eq_none (by omega)
      rw [readBytes.eq_2, missing]
      rfl
  | succ count inductionHypothesis =>
      by_cases here : start < data.length
      · have rest : readBytes data (start + 1) (count + 1) = none := inductionHypothesis (by omega)
        rw [readBytes.eq_2, List.getElem?_eq_getElem here]
        simp [rest]
      · have missing : data[start]? = none := List.getElem?_eq_none (by omega)
        rw [readBytes.eq_2, missing]
        rfl

/-! ## Round trip -/

/-- `handle_serialize`: the handle's own bytes, then its trailing field. -/
def handleSerialize (handle : DeserializedHandle) : List UInt8 :=
  handle.bytes ++ handle.field.getD []

/-- The handle types that carry a trailing field. -/
def HasField (type : Nat) : Prop :=
  type = PAL_TYPE_PIPE ∨ type = PAL_TYPE_PIPECLI ∨ type = PAL_TYPE_PROCESS ∨
    type = PAL_TYPE_DEV ∨ type = PAL_TYPE_FILE ∨ type = PAL_TYPE_DIR

/-- The handle types without one. -/
def HasNoField (type : Nat) : Prop :=
  type = PAL_TYPE_PIPESRV ∨ type = PAL_TYPE_CONSOLE ∨ type = PAL_TYPE_SOCKET ∨
    type = PAL_TYPE_EVENTFD

/-- A handle whose trailing field matches its type, serialised to fewer than
`2^64` bytes. -/
def DeserializedHandle.WellFormed (hdlSize : Nat) (handle : DeserializedHandle) : Prop :=
  handle.bytes.length = hdlSize ∧ (handleSerialize handle).length < 2 ^ 64 ∧
    ((HasField (handleType handle.bytes) ∧ handle.field.isSome) ∨
      (HasNoField (handleType handle.bytes) ∧ handle.field = none))

/-- Deserialising what `handle_serialize` produced, all of it received,
gives the handle back. -/
theorem handleDeserialize_handleSerialize {hdlSize : Nat} {handle : DeserializedHandle}
    (wellFormed : handle.WellFormed hdlSize) :
    handleDeserialize hdlSize (handleSerialize handle) (handleSerialize handle).length =
      some (.ok handle) := by
  obtain ⟨bytes, field⟩ := handle
  obtain ⟨sized, fits, kind⟩ := wellFormed
  simp only [handleSerialize, List.length_append] at sized fits kind ⊢
  have copied : readBytes (bytes ++ field.getD []) 0 hdlSize = some bytes := by
    rw [readBytes_eq_some (by simp; omega)]
    simp [← sized]
  unfold handleDeserialize
  rw [copied]
  simp only [Option.bind_eq_bind, Option.bind_some]
  rcases kind with ⟨typed, present⟩ | ⟨untyped, absent⟩
  · -- the field is read back from right after the handle's own bytes
    obtain ⟨trailing, rfl⟩ := Option.isSome_iff_exists.mp present
    simp only [Option.getD_some] at fits ⊢
    have fieldSize : (bytes.length + trailing.length + 2 ^ 64 - hdlSize) % 2 ^ 64 =
        trailing.length := by
      rw [← sized, show bytes.length + trailing.length + 2 ^ 64 - bytes.length =
        trailing.length + 2 ^ 64 by omega, Nat.add_mod_right, Nat.mod_eq_of_lt (by omega)]
    have fieldRead : readBytes (bytes ++ trailing) hdlSize trailing.length = some trailing := by
      rw [readBytes_eq_some (by simp; omega), ← sized, List.drop_left, List.take_length]
    unfold HasField at typed
    rw [if_pos typed, fieldSize, fieldRead]
    rfl
  · subst absent
    have noField : ¬ HasField (handleType bytes) := by
      unfold HasNoField at untyped
      unfold HasField
      rcases untyped with same | same | same | same <;> rw [same] <;> decide
    unfold HasField at noField
    unfold HasNoField at untyped
    rw [if_neg noField, if_pos untyped]
    rfl

/-- The host's answers pass every check `_PalReceiveHandle` makes outside TLS. -/
structure ReceiveHost.Passes (host : ReceiveHost) : Prop where
  headerReceived : host.headerRet = HDL_HEADER_SIZE
  dummyReceived : 0 ≤ host.dummyRet
  controlReceived : CMSGHDR_SIZE ≤ host.controlBufSize
  rights : host.cmsgType = SCM_RIGHTS
  fdSent : host.header.hasFd = true → host.cmsgLen = CMSG_LEN_INT

/-- When the header tells the true size and the TLS read delivers all of it,
the receiver rebuilds exactly the handle the peer serialised. -/
theorem palReceiveHandle_of_full_read {hdlSize : Nat} {host : ReceiveHost}
    {handle : DeserializedHandle} {rest : List UInt8} {secureRead : Nat → Except PalError Nat}
    (wellFormed : handle.WellFormed hdlSize) (passes : host.Passes)
    (trueSize : host.header.dataSize = (handleSerialize handle).length)
    (full : secureRead host.header.dataSize = .ok host.header.dataSize) :
    palReceiveHandle hdlSize host (handleSerialize handle ++ rest) secureRead =
      some (.ok (handle, if host.header.hasFd then host.cmsgFd else -1)) := by
  have fdChecked : ¬ (host.header.hasFd = true ∧ host.cmsgLen ≠ CMSG_LEN_INT) :=
    fun ⟨hasFd, differs⟩ => differs (passes.fdSent hasFd)
  unfold palReceiveHandle
  rw [if_neg (by rw [passes.headerReceived]; decide), if_neg (by simp [passes.headerReceived]),
    if_neg (Int.not_lt.mpr passes.dummyReceived), if_neg (Nat.not_lt.mpr passes.controlReceived),
    full]
  -- the read delivered exactly the serialised handle
  simp only [if_neg (not_not.mpr passes.rights), if_neg fdChecked, trueSize, List.take_left,
    handleDeserialize_handleSerialize wellFormed]
  rfl

/-! ## Reads of bytes that were not received -/

/-- With fewer than `hdl_size` bytes received, the `memcpy` of the handle
reads bytes that did not come through TLS. -/
theorem handleDeserialize_short {hdlSize size : Nat} {data : List UInt8}
    (short : data.length < hdlSize) : handleDeserialize hdlSize data size = none := by
  obtain ⟨count, rfl⟩ : ∃ count, hdlSize = count + 1 := ⟨hdlSize - 1, by omega⟩
  unfold handleDeserialize
  rw [readBytes_eq_none (by omega)]
  rfl

/-- Whatever the header says, a TLS read that delivers fewer than `hdl_size`
bytes makes `_PalReceiveHandle` read bytes that did not come through TLS. -/
theorem palReceiveHandle_short_read {hdlSize received : Nat} {host : ReceiveHost}
    {peer : List UInt8} {secureRead : Nat → Except PalError Nat} (passes : host.Passes)
    (read : secureRead host.header.dataSize = .ok received) (short : received < hdlSize) :
    palReceiveHandle hdlSize host peer secureRead = none := by
  have fdChecked : ¬ (host.header.hasFd = true ∧ host.cmsgLen ≠ CMSG_LEN_INT) :=
    fun ⟨hasFd, differs⟩ => differs (passes.fdSent hasFd)
  have deserialized : handleDeserialize hdlSize (peer.take received) host.header.dataSize = none :=
    handleDeserialize_short (Nat.lt_of_le_of_lt (List.length_take_le _ _) short)
  unfold palReceiveHandle
  rw [if_neg (by rw [passes.headerReceived]; decide), if_neg (by simp [passes.headerReceived]),
    if_neg (Int.not_lt.mpr passes.dummyReceived), if_neg (Nat.not_lt.mpr passes.controlReceived),
    read]
  simp only [if_neg (not_not.mpr passes.rights), if_neg fdChecked, deserialized]
  rfl

/-- A host that answers outside TLS as an honest one would, with a header
announcing `dataSize` bytes and no descriptor. -/
def plainReceiveHost (dataSize : Nat) : ReceiveHost :=
  ⟨HDL_HEADER_SIZE, ⟨false, dataSize⟩, 13, CMSGHDR_SIZE + 8, SCM_RIGHTS, CMSGHDR_SIZE, -1⟩

theorem plainReceiveHost_passes (dataSize : Nat) : (plainReceiveHost dataSize).Passes :=
  ⟨rfl, by simp [plainReceiveHost], by simp [plainReceiveHost, CMSGHDR_SIZE], rfl,
    fun hasFd => absurd hasFd (by simp [plainReceiveHost])⟩

/-- The stack `_PalReceiveHandle` takes grows with the size in the host's
header, and a short TLS read, or a header announcing fewer bytes than a
handle has, makes it read bytes of `hdl_data` that did not come through TLS. -/
theorem palReceiveHandle_trusts_host_sizes (hdlSize : Nat) (handleBytes : 2 ≤ hdlSize)
    (peer : List UInt8) :
    (∀ bound, bound < palReceiveHandleStackBytes (plainReceiveHost (bound + 1))) ∧
      palReceiveHandle hdlSize (plainReceiveHost hdlSize) peer (fun _ => .ok 1) = none ∧
      palReceiveHandle hdlSize (plainReceiveHost 1) peer (fun _ => .ok 1) = none :=
  ⟨fun bound => Nat.lt_succ_self bound,
    palReceiveHandle_short_read (plainReceiveHost_passes hdlSize) rfl handleBytes,
    palReceiveHandle_short_read (plainReceiveHost_passes 1) rfl handleBytes⟩

/-- At a handle of 24 bytes, `PAL_HDR` and the flags, and an empty stream. -/
theorem palReceiveHandle_trusts_host_sizes_at_24 :
    (∀ bound, bound < palReceiveHandleStackBytes (plainReceiveHost (bound + 1))) ∧
      palReceiveHandle 24 (plainReceiveHost 24) [] (fun _ => .ok 1) = none ∧
      palReceiveHandle 24 (plainReceiveHost 1) [] (fun _ => .ok 1) = none :=
  palReceiveHandle_trusts_host_sizes 24 (by decide) []

end Gramine.Pal.LinuxSgx
