import Mathlib
import Gramine.Common.Errno
/-!
# Waiting for IPC responses

`ipc_send_msg_and_get_response` of `libos_ipc.c` takes the next sequence
number, puts a `struct ipc_msg_waiter` (on its stack) into
`g_msg_waiters_tree`, sends the request and sleeps on the waiter's event. The
IPC worker hands each response to `ipc_response_callback`, which stores the
payload in the waiter of the response's sequence number and sets its event,
or frees the payload when no waiter has that number.
`remove_outgoing_ipc_connection` empties `response_data` of every waiter of the
removed process and sets its event. The woken caller reads `response_data`
without the lock: `NULL` means the peer died (`-ESRCH`); otherwise it hands the
payload to its caller through `resp` and clears `response_data`. Last it
deletes its waiter under the lock and frees what `response_data` then holds.

Payloads are numbered in the order the worker allocates them, and the model
records each one's sequence number, the payloads freed, in order, and those
handed to callers. Each step is one critical section of `g_msg_waiters_tree_lock`
or one unlocked action of the caller. `PalEventCreate` is taken to succeed.
-/

namespace Gramine.LibOS.Ipc

/-- `struct ipc_msg_waiter`: `response_data` is a payload's number, `none`
for `NULL`; `eventSet` is its event. -/
structure IpcMsgWaiter where
  seq : Nat
  dest : Nat
  responseData : Option Nat
  eventSet : Bool
  deriving DecidableEq, Repr

/-- Where a thread is in `ipc_send_msg_and_get_response`. -/
inductive ResponsePc where
  | idle
  /-- In `wait_for_response` on the waiter of `seq`. -/
  | waiting (seq : Nat)
  /-- `*resp = waiter.response_data` done, `waiter.response_data = NULL` not
  yet. -/
  | taking (seq : Nat)
  /-- At `out:`, returning `ret`. -/
  | leaving (seq : Nat) (ret : Int)
  | returned (ret : Int)
  deriving DecidableEq, Repr, Inhabited

/-- A calling thread: its request's destination, whether it passed a `resp`
pointer, and where it is. -/
structure ResponseThread where
  dest : Nat
  wantsResp : Bool
  pc : ResponsePc
  deriving DecidableEq, Repr, Inhabited

/-- `ipc_seq_counter`, the waiters tree, the calling threads, and the
payloads: `payloadSeqs` holds the sequence number each came with, `freed` the
payloads freed, in order, and `owned` those handed to callers through `resp`. -/
structure ResponseSystem where
  seqCounter : Nat
  waiters : List IpcMsgWaiter
  threads : List ResponseThread
  payloadSeqs : List Nat
  freed : List Nat
  owned : List Nat
  deriving DecidableEq, Repr

namespace ResponseSystem

variable (s : ResponseSystem)

def thread (tid : Nat) : ResponseThread :=
  s.threads.getD tid default

def setPc (tid : Nat) (pc : ResponsePc) : ResponseSystem :=
  { s with threads := s.threads.modify tid fun t => { t with pc := pc } }

/-- `avl_tree_find(&g_msg_waiters_tree, ...)` by sequence number. -/
def waiter? (seq : Nat) : Option IpcMsgWaiter :=
  s.waiters.find? (·.seq == seq)

def modifyWaiter (seq : Nat) (f : IpcMsgWaiter → IpcMsgWaiter) : ResponseSystem :=
  { s with waiters := s.waiters.map fun w => if w.seq = seq then f w else w }

/-- `ipc_send_msg_and_get_response(dest, msg, resp)` up to
`wait_for_response`: the sequence number, the waiter inserted, the request
sent; `sendRet` is what `ipc_send_message` returned. -/
def sendMsg (tid dest : Nat) (wantsResp : Bool) (sendRet : Int) : Option ResponseSystem :=
  if (s.thread tid).pc ≠ .idle ∨ s.threads.length ≤ tid then none
  else
    let seq := s.seqCounter
    let waiter : IpcMsgWaiter := ⟨seq, dest, none, false⟩
    let s := { s with seqCounter := seq + 1, waiters := s.waiters ++ [waiter] }
    some { s with
      threads := s.threads.set tid
        ⟨dest, wantsResp, if sendRet < 0 then .leaving seq sendRet else .waiting seq⟩ }

/-- `ipc_response_callback(src, data, seq)`, `data` being the payload
`receive_ipc_messages` allocated for the response. -/
def responseCallback (seq : Nat) : ResponseSystem :=
  let data := s.payloadSeqs.length
  let s := { s with payloadSeqs := s.payloadSeqs ++ [seq] }
  if seq = 0 then { s with freed := s.freed ++ [data] }
  else
    match s.waiter? seq with
    | none => { s with freed := s.freed ++ [data] }
    | some _ => s.modifyWaiter seq fun w => { w with responseData := some data, eventSet := true }

/-- The waiters' part of `remove_outgoing_ipc_connection(dest)`. -/
def removeOutgoingIpcConnection (dest : Nat) : ResponseSystem :=
  { s with
    waiters := s.waiters.map fun w =>
      if w.dest = dest then { w with responseData := none, eventSet := true } else w }

/-- The caller once its event is set: `NULL` is a dead peer; otherwise, with a
`resp` pointer, `*resp = waiter.response_data`. -/
def wakeCaller (tid : Nat) : Option ResponseSystem :=
  match (s.thread tid).pc with
  | .waiting seq =>
    match s.waiter? seq with
    | none => none
    | some w =>
      if !w.eventSet then none
      else
        match w.responseData with
        | none => some (s.setPc tid (.leaving seq (-ESRCH)))
        | some data =>
          if (s.thread tid).wantsResp then some ({ s with owned := s.owned ++ [data] }.setPc tid (.taking seq))
          else some (s.setPc tid (.leaving seq 0))
  | _ => none

/-- `waiter.response_data = NULL` after the payload went to `*resp`. -/
def clearResponse (tid : Nat) : Option ResponseSystem :=
  match (s.thread tid).pc with
  | .taking seq => some ((s.modifyWaiter seq fun w => { w with responseData := none }).setPc tid (.leaving seq 0))
  | _ => none

/-- `out:`: the waiter deleted from the tree and `free(waiter.response_data)`. -/
def leaveCall (tid : Nat) : Option ResponseSystem :=
  match (s.thread tid).pc with
  | .leaving seq ret =>
    let data := (s.waiter? seq).bind (·.responseData)
    some ({ s with waiters := s.waiters.filter (·.seq != seq), freed := s.freed ++ data.toList }.setPc tid
      (.returned ret))
  | _ => none

end ResponseSystem

/-- One step: a caller's, the IPC worker's (a response), or a disconnect. -/
inductive ResponseOp where
  | send (tid dest : Nat) (wantsResp : Bool) (sendRet : Int)
  | respond (seq : Nat)
  | disconnect (dest : Nat)
  | wake (tid : Nat)
  | clear (tid : Nat)
  | leave (tid : Nat)
  deriving DecidableEq, Repr

def responseStep : ResponseOp → ResponseSystem → Option ResponseSystem
  | .send tid dest wantsResp sendRet, s => s.sendMsg tid dest wantsResp sendRet
  | .respond seq, s => some (s.responseCallback seq)
  | .disconnect dest, s => some (s.removeOutgoingIpcConnection dest)
  | .wake tid, s => s.wakeCaller tid
  | .clear tid, s => s.clearResponse tid
  | .leave tid, s => s.leaveCall tid

def responseSteps : List ResponseOp → ResponseSystem → Option ResponseSystem
  | [], s => some s
  | op :: ops, s => (responseStep op s).bind (responseSteps ops)

/-- `n` threads, none in a call, and `ipc_seq_counter` at 1. -/
def ResponseSystem.initial (n : Nat) : ResponseSystem :=
  ⟨1, [], List.replicate n default, [], [], []⟩

/-- A payload the worker allocated that is neither freed, nor handed to a
caller, nor held by a waiter: nothing can free it any more. -/
def ResponseSystem.Leaked (s : ResponseSystem) (data : Nat) : Prop :=
  data < s.payloadSeqs.length ∧ data ∉ s.freed ∧ data ∉ s.owned ∧
    ∀ w ∈ s.waiters, w.responseData ≠ some data

instance (s : ResponseSystem) (data : Nat) : Decidable (s.Leaked data) :=
  inferInstanceAs (Decidable (data < s.payloadSeqs.length ∧ data ∉ s.freed ∧ data ∉ s.owned ∧
    ∀ w ∈ s.waiters, w.responseData ≠ some data))

attribute [grind] ResponseSystem.thread ResponseSystem.setPc ResponseSystem.waiter? ResponseSystem.modifyWaiter
  ResponseSystem.sendMsg ResponseSystem.responseCallback ResponseSystem.removeOutgoingIpcConnection
  ResponseSystem.wakeCaller ResponseSystem.clearResponse ResponseSystem.leaveCall responseStep responseSteps

/-! ## Responses lost -/

/-- A response arrives for the waiting caller, then its peer is removed before
the caller wakes: the caller returns `-ESRCH`, and the payload is lost. -/
theorem ipcResponse_lost_to_disconnect :
    ∃ s, responseSteps [.send 0 1 true 0, .respond 1, .disconnect 1, .wake 0, .leave 0] (.initial 1) = some s ∧
      s.payloadSeqs = [1] ∧ (s.thread 0).pc = .returned (-ESRCH) ∧ s.Leaked 0 :=
  ⟨_, rfl, rfl, rfl, by decide⟩

/-- A second response with the same sequence number replaces the first one's
payload, which is lost. -/
theorem ipcResponse_duplicate_leaks :
    ∃ s, responseSteps [.send 0 1 true 0, .respond 1, .respond 1, .wake 0, .clear 0, .leave 0] (.initial 1) =
        some s ∧
      s.payloadSeqs = [1, 1] ∧ (s.thread 0).pc = .returned 0 ∧ s.owned = [1] ∧ s.Leaked 0 :=
  ⟨_, rfl, rfl, rfl, rfl, by decide⟩

/-- A response stored after the caller took the first one, and before it
cleared `response_data`, is lost when it clears it. -/
theorem ipcResponse_cleared_after_late_response_leaks :
    ∃ s, responseSteps [.send 0 1 true 0, .respond 1, .wake 0, .respond 1, .clear 0, .leave 0] (.initial 1) =
        some s ∧
      s.payloadSeqs = [1, 1] ∧ (s.thread 0).pc = .returned 0 ∧ s.owned = [0] ∧ s.Leaked 1 :=
  ⟨_, rfl, rfl, rfl, rfl, by decide⟩

end Gramine.LibOS.Ipc
