import Mathlib
import Gramine.Pal.Error

/-!
# Trusted files in the SGX PAL

A trusted file is listed in the manifest with the SHA-256 hash of its content
(`pal/src/host/linux-sgx/enclave_framework.c`). The first time it is opened,
`load_trusted_or_allowed_file` copies the host's mapping of the file into the
enclave chunk by chunk, hashes each chunk and the whole file, compares the
latter with the manifest, and caches the chunk hashes in the shared
`struct trusted_file`. `file_read` (`pal_files.c`) then copies the chunks a read
touches into the enclave again and checks each against its cached hash.

The hashes are parameters: `sha256` of the whole content and `chunkSha`, the
SHA-256 of a chunk truncated to 128 bits. The host's mapping is what the
untrusted memory holds when a chunk is copied, and may change between any two
copies: in a loop over chunks, copy `k` reads the byte function `umem k`.
The copies themselves cannot fail, since `ocall_mmap_untrusted` checked that
the mapping lies outside the enclave. Offsets and counts are those of callers
whose `offset + count` does not wrap around. As elsewhere, `none` is a read
out of bounds.
-/

namespace Gramine.Pal.LinuxSgx

open Gramine.Pal

/-- `TRUSTED_CHUNK_SIZE`: four pages. -/
def TRUSTED_CHUNK_SIZE : Nat := 4 * 4096

/-- `UDIV_ROUND_UP(n, d)`. -/
def udivRoundUp (n d : Nat) : Nat := n / d + if n % d = 0 then 0 else 1

/-- `ALIGN_DOWN(val, alignment)`. -/
def alignDown (val alignment : Nat) : Nat := val - val % alignment

/-- `ALIGN_UP(val, alignment)`. -/
def alignUp (val alignment : Nat) : Nat := alignDown (val + alignment - 1) alignment

/-- The host's memory while a loop copies its chunks: copy `k` sees `umem k`. -/
abbrev UntrustedMem := Nat → Nat → UInt8

/-- `sgx_copy_to_enclave` of `size` bytes at `offset`, as copy `k` sees them. -/
def copyChunk (umem : UntrustedMem) (k offset size : Nat) : List UInt8 :=
  (List.range size).map fun i => umem k (offset + i)

/-- The size of chunk `k` of a file of `size` bytes: `MIN(size - offset, TRUSTED_CHUNK_SIZE)`. -/
def chunkSize (size k : Nat) : Nat := min (size - k * TRUSTED_CHUNK_SIZE) TRUSTED_CHUNK_SIZE

/-- `struct trusted_file` of a file listed in `sgx.trusted_files`. -/
structure TrustedFile (FileHash ChunkHash : Type) where
  size : Nat
  fileHash : FileHash
  chunkHashes : Option (List ChunkHash)

/-- What the host's `fstat` answers when the file is opened. -/
structure FstatAnswer where
  size : Nat
  seekable : Bool

/-- The trusted-file fields of a file handle: `file.size`, `file.chunk_hashes`
and `file.trusted`. -/
structure TrustedHandle (ChunkHash : Type) where
  size : Nat
  chunkHashes : List ChunkHash

attribute [grind] alignDown alignUp

section Hashes

variable {FileHash ChunkHash : Type} [DecidableEq FileHash] [DecidableEq ChunkHash]
  (sha256 : List UInt8 → FileHash) (chunkSha : List UInt8 → ChunkHash)

/-- The chunks the loop of `load_trusted_or_allowed_file` copies from offset 0
to `size`, each from its own copy of the host's memory. -/
def loadedChunks (umem : UntrustedMem) (size : Nat) : List (List UInt8) :=
  (List.range (udivRoundUp size TRUSTED_CHUNK_SIZE)).map fun k =>
    copyChunk umem k (k * TRUSTED_CHUNK_SIZE) (chunkSize size k)

/-- `load_trusted_or_allowed_file` for a trusted file that is not created:
the chunk hashes for the handle and the `struct trusted_file` afterwards.
`tf->size` was just set from `fstat`, and `*out_size` is set to it before the
cached hashes are looked at. -/
def loadTrustedOrAllowedFile (tf : TrustedFile FileHash ChunkHash) (seekable : Bool)
    (umem : UntrustedMem) : Except PalError (List ChunkHash) × TrustedFile FileHash ChunkHash :=
  if !seekable then (.error .denied, tf)
  else
    match tf.chunkHashes with
    | some cached => (.ok cached, tf)
    | none =>
        let chunks := loadedChunks umem tf.size
        -- the whole-file hash is fed the same enclave copies as the chunk hashes
        if sha256 chunks.flatten ≠ tf.fileHash then (.error .denied, tf)
        else
          let chunkHashes := chunks.map chunkSha
          (.ok chunkHashes, { tf with chunkHashes := some chunkHashes })

/-- `file_open` on a trusted file: refused for writing or creating, otherwise
`tf->size` is refreshed from `fstat` and the file is loaded. -/
def fileOpen (tf : TrustedFile FileHash ChunkHash) (writeOrCreate : Bool) (stat : FstatAnswer)
    (umem : UntrustedMem) :
    Except PalError (TrustedHandle ChunkHash) × TrustedFile FileHash ChunkHash :=
  if writeOrCreate then (.error .denied, tf)
  else
    let tf := { tf with size := stat.size }
    match loadTrustedOrAllowedFile sha256 chunkSha tf stat.seekable umem with
    | (.error err, tf) => (.error err, tf)
    | (.ok chunkHashes, tf) => (.ok ⟨tf.size, chunkHashes⟩, tf)

/-- The loop of `copy_and_verify_trusted_file` over the chunks `ks`, with the
bytes written to `buf` so far. A chunk inside `[offset, end)` is copied
straight into `buf` and one that overlaps its edge through a scratch buffer;
both write the part of the chunk inside `[offset, end)`, and both check the
chunk against `chunk_hashes[k]`. -/
def verifyChunks (umem : UntrustedMem) (offset stop fileSize : Nat)
    (chunkHashes : List ChunkHash) : List Nat → List UInt8 → Option (Except PalError (List UInt8))
  | [], written => some (.ok written)
  | k :: ks, written => do
      let chunkOffset := k * TRUSTED_CHUNK_SIZE
      let chunk := copyChunk umem k chunkOffset (chunkSize fileSize k)
      let copyStart := max chunkOffset offset
      let copyEnd := min (chunkOffset + chunk.length) stop
      let part := (chunk.drop (copyStart - chunkOffset)).take (copyEnd - copyStart)
      let expected ← chunkHashes[k]?
      if chunkSha chunk ≠ expected then return .error .denied
      verifyChunks umem offset stop fileSize chunkHashes ks (written ++ part)

/-- `copy_and_verify_trusted_file`: on a failed check the first `end - offset`
bytes of `buf` are zeroed. The result is the error or the bytes written. -/
def copyAndVerifyTrustedFile (umem : UntrustedMem) (alignedOffset alignedEnd offset stop : Nat)
    (chunkHashes : List ChunkHash) (fileSize : Nat) :
    Option (Except (PalError × List UInt8) (List UInt8)) := do
  let chunkIndices := List.range' (alignedOffset / TRUSTED_CHUNK_SIZE)
    ((alignedEnd - alignedOffset) / TRUSTED_CHUNK_SIZE)
  match ← verifyChunks chunkSha umem offset stop fileSize chunkHashes chunkIndices [] with
  | .error err => return .error (err, List.replicate (stop - offset) 0)
  | .ok written => return .ok written

/-- What `file_read` returns and what it left at the start of the caller's buffer. -/
structure ReadOutcome where
  ret : Int
  buffer : List UInt8

/-- `file_read` on a trusted file. -/
def fileRead (handle : TrustedHandle ChunkHash) (umem : UntrustedMem) (offset count : Nat) :
    Option ReadOutcome :=
  if handle.size ≤ offset then some ⟨0, []⟩
  else
    let stop := min (offset + count) handle.size
    let alignedOffset := alignDown offset TRUSTED_CHUNK_SIZE
    let alignedEnd := alignUp stop TRUSTED_CHUNK_SIZE
    match copyAndVerifyTrustedFile chunkSha umem alignedOffset alignedEnd offset stop
        handle.chunkHashes handle.size with
    | none => none
    | some (.error (err, zeroed)) => some ⟨err.toInt, zeroed⟩
    | some (.ok written) => some ⟨(stop - offset : Nat), written⟩

end Hashes

/-! ## A reopened file -/

section Reopen

variable {FileHash ChunkHash : Type} [DecidableEq FileHash] [DecidableEq ChunkHash]

/-- A trusted file whose manifest content is the single byte `A`. -/
def oneByteTrustedFile (sha256 : List UInt8 → FileHash) : TrustedFile FileHash ChunkHash :=
  ⟨0, sha256 [0x41], none⟩

/-- The cached chunk hashes outlive the size they were computed for: a file of
one byte, opened once, then reopened with `fstat` claiming one byte more than a
chunk, keeps its single chunk hash, and a read of the second chunk indexes
`chunk_hashes[1]`. -/
theorem fileRead_grown_reopen_out_of_bounds (sha256 : List UInt8 → FileHash)
    (chunkSha : List UInt8 → ChunkHash) :
    ∃ tf, fileOpen sha256 chunkSha (oneByteTrustedFile sha256) false ⟨1, true⟩ (fun _ _ => 0x41) =
        (.ok ⟨1, [chunkSha [0x41]]⟩, tf) ∧
      (fileOpen sha256 chunkSha tf false ⟨TRUSTED_CHUNK_SIZE + 1, true⟩ (fun _ _ => 0x41)).1 =
        .ok ⟨TRUSTED_CHUNK_SIZE + 1, [chunkSha [0x41]]⟩ ∧
      fileRead chunkSha ⟨TRUSTED_CHUNK_SIZE + 1, [chunkSha [0x41]]⟩ (fun _ _ => 0x41)
        TRUSTED_CHUNK_SIZE 1 = none := by
  refine ⟨⟨1, sha256 [0x41], some [chunkSha [0x41]]⟩, ?_, ?_, ?_⟩
  · simp [fileOpen, loadTrustedOrAllowedFile, oneByteTrustedFile, loadedChunks, udivRoundUp,
      TRUSTED_CHUNK_SIZE, copyChunk, chunkSize]
  · simp [fileOpen, loadTrustedOrAllowedFile]
  · simp [fileRead, copyAndVerifyTrustedFile, TRUSTED_CHUNK_SIZE, alignDown, alignUp, verifyChunks]

end Reopen

end Gramine.Pal.LinuxSgx
