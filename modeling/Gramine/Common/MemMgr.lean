import Mathlib

/-!
# The fixed-size object manager

`memmgr.h` hands out objects of one type (handles, for `handle_mgr`) from
areas of slots: from the free list, or from the top `mgr->obj` of the active
area. When both are used up, `get_mem_obj_from_mgr_enlarge` activates an
area allocated earlier, or drops `SYSTEM_LOCK` to allocate one with
`system_malloc` and, back under the lock, activates it only if `mgr->size`
is what it read before.

The model keeps the manager with its areas numbered in the order they were
allocated; a pointer `objs + i` into an area is the area's number and `i`.
The two critical sections of `get_mem_obj_from_mgr_enlarge` are
`getMemObjEnter` and `getMemObjEnlarged`; between them a thread waits in
`system_malloc`, and any other thread may run. A system is the manager with
the calls its threads have in `system_malloc`, the objects handed out and not
freed, and the number of the next area; `memMgrStep` runs one critical
section of one thread. The allocation is that of a build without ASan.
-/

namespace Gramine.Common

/-- A pointer `objs + index` into the slots of the area numbered `area`. -/
structure MemObj where
  area : Nat
  index : Nat
  deriving DecidableEq, Repr

/-- `struct mem_area`, numbered in the order the areas are allocated. -/
structure MemArea where
  id : Nat
  size : Nat
  deriving DecidableEq, Repr

/-- `struct mem_mgr`; `areaList` from its head, where `LISTP_ADD` puts an
area. -/
structure MemMgr where
  areaList : List MemArea
  freeList : List MemObj
  size : Nat
  obj : MemObj
  objTop : MemObj
  activeArea : MemArea
  deriving DecidableEq, Repr

/-- `__set_free_mem_area(area, mgr)`. -/
def setFreeMemArea (area : MemArea) (mgr : MemMgr) : MemMgr :=
  { mgr with size := mgr.size + area.size, obj := ⟨area.id, 0⟩,
             objTop := ⟨area.id, area.size⟩, activeArea := area }

/-- `create_mem_mgr(size)`, its area numbered `0`. -/
def createMemMgr (size : Nat) : MemMgr :=
  setFreeMemArea ⟨0, size⟩ ⟨[⟨0, size⟩], [], 0, ⟨0, 0⟩, ⟨0, 0⟩, ⟨0, size⟩⟩

/-- `LISTP_PREV_ENTRY(area, &mgr->area_list)`: the area before `area`, none
for the head. -/
def prevEntry (area : MemArea) : List MemArea → Option MemArea
  | prev :: cur :: rest => if cur = area then some prev else prevEntry area (cur :: rest)
  | _ => none

/-- The allocation at `alloc:`: the head of the free list if there is one,
else `mgr->obj++`. -/
def memMgrAlloc (mgr : MemMgr) : MemObj × MemMgr :=
  match mgr.freeList with
  | mobj :: rest => (mobj, { mgr with freeList := rest })
  | [] => (mgr.obj, { mgr with obj := ⟨mgr.obj.area, mgr.obj.index + 1⟩ })

/-- How the first critical section of `get_mem_obj_from_mgr_enlarge` ends. -/
inductive GetEnter
  /-- The call returns an object. -/
  | alloc (mobj : MemObj) (mgr : MemMgr)
  /-- The lock is dropped for `system_malloc`, with `mgr->size` read. -/
  | enlarge (mgrSize : Nat)
  /-- The call returns `NULL`: nothing left and a size of `0`. -/
  | fail
  deriving Repr

/-- `get_mem_obj_from_mgr_enlarge(mgr, size)` up to its first
`SYSTEM_UNLOCK()`. -/
def getMemObjEnter (size : Nat) (mgr : MemMgr) : GetEnter :=
  if mgr.obj = mgr.objTop ∧ mgr.freeList = [] then
    match prevEntry mgr.activeArea mgr.areaList with
    | some area =>
      let got := memMgrAlloc (setFreeMemArea area mgr)
      .alloc got.1 got.2
    | none => if size = 0 then .fail else .enlarge mgr.size
  else
    let got := memMgrAlloc mgr
    .alloc got.1 got.2

/-- The second critical section of `get_mem_obj_from_mgr_enlarge`, once
`system_malloc` gave `area`: the area goes to the head of the list and is
activated only if `mgr->size` is still `mgrSize`; then the allocation. -/
def getMemObjEnlarged (mgrSize : Nat) (area : MemArea) (mgr : MemMgr) : MemObj × MemMgr :=
  let mgr := { mgr with areaList := area :: mgr.areaList }
  memMgrAlloc (if mgrSize = mgr.size then setFreeMemArea area mgr else mgr)

/-- `free_mem_obj_to_mgr(mgr, obj)`: the object goes to the tail of the free
list. -/
def freeMemObjToMgr (mobj : MemObj) (mgr : MemMgr) : MemMgr :=
  { mgr with freeList := mgr.freeList ++ [mobj] }

/-! ## Threads -/

/-- A call of `get_mem_obj_from_mgr_enlarge` in `system_malloc`: its size and
the `mgr->size` it read. -/
structure Enlarging where
  size : Nat
  mgrSize : Nat
  deriving DecidableEq, Repr

/-- The manager and its threads: the call each thread has in
`system_malloc`, the objects handed out and not freed, and the number of the
next area `system_malloc` gives. -/
structure MemMgrSystem where
  mgr : MemMgr
  enlarging : Nat → Option Enlarging
  live : List MemObj
  nextArea : Nat

/-- One critical section of one thread. -/
inductive MemMgrOp
  /-- The thread calls `get_mem_obj_from_mgr_enlarge(mgr, size)`. -/
  | get (thread size : Nat)
  /-- `system_malloc` returns to the thread: a new area, or `NULL`. -/
  | malloc (thread : Nat) (ok : Bool)
  /-- `free_mem_obj_to_mgr(mgr, obj)`. -/
  | free (mobj : MemObj)
  deriving DecidableEq, Repr

/-- The system after one critical section; `none` for what cannot happen: a
call by a thread already in one, a return from `system_malloc` to a thread
not in it, the free of an object not handed out. -/
def memMgrStep : MemMgrOp → MemMgrSystem → Option MemMgrSystem
  | .get thread size, s =>
    match s.enlarging thread with
    | some _ => none
    | none =>
      match getMemObjEnter size s.mgr with
      | .alloc mobj mgr => some { s with mgr, live := mobj :: s.live }
      | .enlarge mgrSize =>
        some { s with enlarging := Function.update s.enlarging thread (some ⟨size, mgrSize⟩) }
      | .fail => some s
  | .malloc thread ok, s =>
    match s.enlarging thread with
    | none => none
    | some call =>
      let enlarging := Function.update s.enlarging thread none
      if ok then
        let got := getMemObjEnlarged call.mgrSize ⟨s.nextArea, call.size⟩ s.mgr
        some ⟨got.2, enlarging, got.1 :: s.live, s.nextArea + 1⟩
      else some { s with enlarging }
  | .free mobj, s =>
    if mobj ∈ s.live then some { s with mgr := freeMemObjToMgr mobj s.mgr, live := s.live.erase mobj }
    else none

/-- A manager from `create_mem_mgr(size)` with no thread in it. -/
def memMgrInit (size : Nat) : MemMgrSystem :=
  ⟨createMemMgr size, fun _ => none, [], 1⟩

/-- The systems the threads reach, in any interleaving of their critical
sections, from a manager of `size` slots. -/
inductive MemMgrRun (size : Nat) : MemMgrSystem → Prop
  | init : MemMgrRun size (memMgrInit size)
  | step {s s' : MemMgrSystem} (op : MemMgrOp) : MemMgrRun size s → memMgrStep op s = some s' →
      MemMgrRun size s'

/-- The critical sections `ops`, in order. -/
def memMgrSteps : List MemMgrOp → MemMgrSystem → Option MemMgrSystem
  | [], s => some s
  | op :: ops, s => (memMgrStep op s).bind (memMgrSteps ops)

attribute [grind] memMgrAlloc getMemObjEnter getMemObjEnlarged memMgrStep memMgrSteps

theorem MemMgrRun.steps {size : Nat} :
    ∀ {ops : List MemMgrOp} {s s' : MemMgrSystem}, MemMgrRun size s → memMgrSteps ops s = some s' →
      MemMgrRun size s'
  | [], _, _, run, h => by
    cases h
    exact run
  | op :: ops, s, s', run, h => by
    rw [memMgrSteps] at h
    obtain ⟨next, stepped, rest⟩ := Option.bind_eq_some_iff.mp h
    exact (run.step op stepped).steps rest

theorem memMgrSteps_append :
    ∀ (ops ops' : List MemMgrOp) (s : MemMgrSystem),
      memMgrSteps (ops ++ ops') s = (memMgrSteps ops s).bind (memMgrSteps ops')
  | [], _, _ => rfl
  | op :: ops, ops', s => by
    rw [List.cons_append, memMgrSteps, memMgrSteps, Option.bind_assoc]
    congr 1
    funext next
    exact memMgrSteps_append ops ops' next

/-- `objs + index` lies in an area of the manager. -/
def MemMgr.InArea (mgr : MemMgr) (mobj : MemObj) : Prop :=
  ∃ area ∈ mgr.areaList, area.id = mobj.area ∧ mobj.index < area.size

/-! ## One critical section -/

theorem memMgrAlloc_of_freeList_nil {mgr : MemMgr} (noFree : mgr.freeList = []) :
    memMgrAlloc mgr = (mgr.obj, { mgr with obj := ⟨mgr.obj.area, mgr.obj.index + 1⟩ }) := by
  unfold memMgrAlloc
  rw [noFree]

/-- A call finds the active area with slots left. -/
theorem getMemObjEnter_of_ne (size : Nat) {mgr : MemMgr} (room : mgr.obj ≠ mgr.objTop) :
    getMemObjEnter size mgr = .alloc (memMgrAlloc mgr).1 (memMgrAlloc mgr).2 := by
  unfold getMemObjEnter
  rw [if_neg fun used => room used.1]

/-- A call finds nothing left and no area to activate. -/
theorem getMemObjEnter_of_used_up {size : Nat} {mgr : MemMgr} (usedUp : mgr.obj = mgr.objTop)
    (noFree : mgr.freeList = []) (noPrev : prevEntry mgr.activeArea mgr.areaList = none)
    (pos : size ≠ 0) : getMemObjEnter size mgr = .enlarge mgr.size := by
  unfold getMemObjEnter
  rw [if_pos ⟨usedUp, noFree⟩, noPrev]
  simp [pos]

/-- A thread not in a call takes the slot at the top of the active area. -/
theorem memMgrStep_get_of_room {thread size : Nat} {s : MemMgrSystem}
    (idle : s.enlarging thread = none) (noFree : s.mgr.freeList = []) (room : s.mgr.obj ≠ s.mgr.objTop) :
    memMgrStep (.get thread size) s =
      some { s with mgr := { s.mgr with obj := ⟨s.mgr.obj.area, s.mgr.obj.index + 1⟩ },
                    live := s.mgr.obj :: s.live } := by
  simp only [memMgrStep, idle, getMemObjEnter_of_ne size room, memMgrAlloc_of_freeList_nil noFree]

/-- `k` calls by a thread not in one, with an empty free list and `k` slots
left in the active area, take the next `k` slots. -/
theorem memMgrSteps_replicate_get (thread size : Nat) :
    ∀ (k : Nat) (s : MemMgrSystem), s.enlarging thread = none → s.mgr.freeList = [] →
      s.mgr.obj.area = s.mgr.objTop.area → s.mgr.obj.index + k ≤ s.mgr.objTop.index →
      ∃ taken, memMgrSteps (List.replicate k (.get thread size)) s =
        some { s with mgr := { s.mgr with obj := ⟨s.mgr.obj.area, s.mgr.obj.index + k⟩ },
                      live := taken ++ s.live }
  | 0, s, _, _, _, _ => ⟨[], by simp [memMgrSteps]⟩
  | k + 1, s, idle, noFree, sameArea, room => by
    have free : s.mgr.obj ≠ s.mgr.objTop := fun same => by
      rw [same] at room
      omega
    obtain ⟨taken, rest⟩ := memMgrSteps_replicate_get thread size k
      { s with mgr := { s.mgr with obj := ⟨s.mgr.obj.area, s.mgr.obj.index + 1⟩ },
               live := s.mgr.obj :: s.live }
      idle noFree sameArea (by dsimp only; omega)
    refine ⟨taken ++ [s.mgr.obj], ?_⟩
    rw [List.replicate_succ, memMgrSteps, memMgrStep_get_of_room idle noFree free, Option.bind_some, rest]
    simp only [List.append_assoc, List.singleton_append, Nat.add_assoc, Nat.add_comm 1 k]

/-- A thread not in a call finds nothing left and no area to activate, and
calls `system_malloc`. -/
theorem memMgrStep_get_of_used_up {thread size : Nat} {s : MemMgrSystem}
    (idle : s.enlarging thread = none) (usedUp : s.mgr.obj = s.mgr.objTop) (noFree : s.mgr.freeList = [])
    (noPrev : prevEntry s.mgr.activeArea s.mgr.areaList = none) (pos : size ≠ 0) :
    memMgrStep (.get thread size) s =
      some { s with enlarging := Function.update s.enlarging thread (some ⟨size, s.mgr.size⟩) } := by
  simp only [memMgrStep, idle, getMemObjEnter_of_used_up usedUp noFree noPrev pos]

/-- `system_malloc` gives an area to a thread in it. -/
theorem memMgrStep_malloc {thread : Nat} {s : MemMgrSystem} {call : Enlarging}
    (waiting : s.enlarging thread = some call) :
    memMgrStep (.malloc thread true) s =
      some ⟨(getMemObjEnlarged call.mgrSize ⟨s.nextArea, call.size⟩ s.mgr).2,
        Function.update s.enlarging thread none,
        (getMemObjEnlarged call.mgrSize ⟨s.nextArea, call.size⟩ s.mgr).1 :: s.live, s.nextArea + 1⟩ := by
  simp only [memMgrStep, waiting, if_true]

/-- Back from `system_malloc` to an unchanged `mgr->size`, a call activates
its area and takes its first slot. -/
theorem getMemObjEnlarged_of_eq {mgrSize : Nat} {area : MemArea} {mgr : MemMgr}
    (same : mgrSize = mgr.size) (noFree : mgr.freeList = []) :
    getMemObjEnlarged mgrSize area mgr =
      (⟨area.id, 0⟩, { setFreeMemArea area { mgr with areaList := area :: mgr.areaList } with
                         obj := ⟨area.id, 1⟩ }) := by
  unfold getMemObjEnlarged
  dsimp only
  rw [if_pos same, memMgrAlloc_of_freeList_nil
    (show (setFreeMemArea area { mgr with areaList := area :: mgr.areaList }).freeList = [] from noFree)]
  rfl

/-- Back from `system_malloc` to a changed `mgr->size`, a call leaves its
area in the list and takes `mgr->obj++`, whether or not the active area has
a slot left. -/
theorem getMemObjEnlarged_of_ne {mgrSize : Nat} {area : MemArea} {mgr : MemMgr}
    (changed : mgrSize ≠ mgr.size) (noFree : mgr.freeList = []) :
    getMemObjEnlarged mgrSize area mgr =
      (mgr.obj, { mgr with areaList := area :: mgr.areaList,
                           obj := ⟨mgr.obj.area, mgr.obj.index + 1⟩ }) := by
  unfold getMemObjEnlarged
  dsimp only
  rw [if_neg changed, memMgrAlloc_of_freeList_nil
    (show ({ mgr with areaList := area :: mgr.areaList } : MemMgr).freeList = [] from noFree)]

theorem memMgrSteps_append_of {ops : List MemMgrOp} {s s' : MemMgrSystem}
    (first : memMgrSteps ops s = some s') (ops' : List MemMgrOp) :
    memMgrSteps (ops ++ ops') s = memMgrSteps ops' s' := by
  rw [memMgrSteps_append, first, Option.bind_some]

theorem memMgrInit_eq (size : Nat) :
    memMgrInit size = ⟨⟨[⟨0, size⟩], [], size, ⟨0, 0⟩, ⟨0, size⟩, ⟨0, size⟩⟩, fun _ => none, [], 1⟩ := by
  simp [memMgrInit, createMemMgr, setFreeMemArea]

/-! ## Two threads enlarging at once -/

/-- The interleaving: thread 0 takes the `n` slots of the first area; threads
1 and 2 find none left and call `system_malloc`; thread 1 activates its area
of `size` slots and takes a slot; thread 0 takes the others; then
`system_malloc` returns to thread 2. -/
def enlargeRace (n size : Nat) : List MemMgrOp :=
  List.replicate n (.get 0 size) ++ [.get 1 size, .get 2 size, .malloc 1 true] ++
    List.replicate (size - 1) (.get 0 size) ++ [.malloc 2 true]

/-- Where the interleaving leaves the manager: three areas, the second active
and `mgr->obj` one past its top, the slot at its top handed out, and no
thread in `system_malloc`. -/
theorem memMgrSteps_enlargeRace (n size : Nat) (pos : 0 < size) :
    ∃ enlarging taken, memMgrSteps (enlargeRace n size) (memMgrInit n) =
        some ⟨⟨[⟨2, size⟩, ⟨1, size⟩, ⟨0, n⟩], [], n + size, ⟨1, size + 1⟩, ⟨1, size⟩, ⟨1, size⟩⟩,
          enlarging, ⟨1, size⟩ :: taken, 3⟩ ∧
      ∀ thread, enlarging thread = none := by
  rw [memMgrInit_eq]
  -- thread 0 takes the slots of the first area
  obtain ⟨taken, usedUp⟩ := memMgrSteps_replicate_get 0 size n
    ⟨⟨[⟨0, n⟩], [], n, ⟨0, 0⟩, ⟨0, n⟩, ⟨0, n⟩⟩, fun _ => none, [], 1⟩ rfl rfl rfl (by dsimp only; omega)
  simp only [Nat.zero_add, List.append_nil] at usedUp
  -- threads 1 and 2 find nothing left; thread 1 comes back first and activates its area
  have firstBack : memMgrSteps [.get 1 size, .get 2 size, .malloc 1 true]
      ⟨⟨[⟨0, n⟩], [], n, ⟨0, n⟩, ⟨0, n⟩, ⟨0, n⟩⟩, fun _ => none, taken, 1⟩ =
      some ⟨⟨[⟨1, size⟩, ⟨0, n⟩], [], n + size, ⟨1, 1⟩, ⟨1, size⟩, ⟨1, size⟩⟩,
        Function.update (Function.update (Function.update (fun _ => none) 1 (some ⟨size, n⟩)) 2
          (some ⟨size, n⟩)) 1 none, ⟨1, 0⟩ :: taken, 2⟩ := by
    have pos' : size ≠ 0 := by omega
    rw [memMgrSteps, memMgrStep_get_of_used_up rfl rfl rfl rfl pos', Option.bind_some,
      memMgrSteps, memMgrStep_get_of_used_up rfl rfl rfl rfl pos', Option.bind_some,
      memMgrSteps, memMgrStep_malloc rfl, Option.bind_some]
    dsimp only
    rw [getMemObjEnlarged_of_eq (by rfl) (by rfl)]
    rfl
  -- then only thread 2 is in `system_malloc`
  have idle : (Function.update (Function.update (Function.update (fun _ => none) 1
      (some (⟨size, n⟩ : Enlarging))) 2 (some ⟨size, n⟩)) 1 none) 0 = none := rfl
  have waiting : (Function.update (Function.update (Function.update (fun _ => none) 1
      (some (⟨size, n⟩ : Enlarging))) 2 (some ⟨size, n⟩)) 1 none) 2 = some ⟨size, n⟩ := rfl
  have allIdle : ∀ thread, Function.update (Function.update (Function.update (Function.update
      (fun _ => none) 1 (some (⟨size, n⟩ : Enlarging))) 2 (some ⟨size, n⟩)) 1 none) 2 none thread = none := by
    intro thread
    by_cases second : thread = 2
    · simp [second]
    · by_cases first : thread = 1 <;> simp [Function.update, first, second]
  generalize Function.update (Function.update (Function.update (fun _ => none) 1
      (some (⟨size, n⟩ : Enlarging))) 2 (some ⟨size, n⟩)) 1 none = enlarging at firstBack idle waiting allIdle
  -- thread 0 takes the other slots of the area of thread 1
  obtain ⟨taken', usedUpAgain⟩ := memMgrSteps_replicate_get 0 size (size - 1)
    ⟨⟨[⟨1, size⟩, ⟨0, n⟩], [], n + size, ⟨1, 1⟩, ⟨1, size⟩, ⟨1, size⟩⟩, enlarging, ⟨1, 0⟩ :: taken, 2⟩
    idle rfl rfl (by dsimp only; omega)
  have filled : 1 + (size - 1) = size := by omega
  dsimp only at usedUpAgain
  rw [filled] at usedUpAgain
  -- thread 2 comes back to a changed `mgr->size` and takes the slot past the area
  have secondBack : memMgrSteps [.malloc 2 true]
      ⟨⟨[⟨1, size⟩, ⟨0, n⟩], [], n + size, ⟨1, size⟩, ⟨1, size⟩, ⟨1, size⟩⟩, enlarging,
        taken' ++ ⟨1, 0⟩ :: taken, 2⟩ =
      some ⟨⟨[⟨2, size⟩, ⟨1, size⟩, ⟨0, n⟩], [], n + size, ⟨1, size + 1⟩, ⟨1, size⟩, ⟨1, size⟩⟩,
        Function.update enlarging 2 none, ⟨1, size⟩ :: (taken' ++ ⟨1, 0⟩ :: taken), 3⟩ := by
    rw [memMgrSteps, memMgrStep_malloc waiting, Option.bind_some]
    dsimp only
    rw [getMemObjEnlarged_of_ne (by dsimp only; omega) (by rfl)]
    rfl
  refine ⟨_, taken' ++ ⟨1, 0⟩ :: taken, ?_, allIdle⟩
  rw [enlargeRace, List.append_assoc, List.append_assoc, memMgrSteps_append_of usedUp,
    memMgrSteps_append_of firstBack, memMgrSteps_append_of usedUpAgain, secondBack]

/-- Two threads that find the manager used up both drop the lock for
`system_malloc`. The first back activates its area; once that area is used
up, the second adds its own area without activating it, since `mgr->size`
changed, and hands out `mgr->obj++` all the same: the slot just past the
active area, in no area, with `mgr->obj` beyond `mgr->obj_top` as the lock is
released. -/
theorem memMgr_enlarge_race_past_area (n size : Nat) (pos : 0 < size) :
    ∃ s, memMgrSteps (enlargeRace n size) (memMgrInit n) = some s ∧ MemMgrRun n s ∧
      (⟨1, size⟩ : MemObj) ∈ s.live ∧ ¬s.mgr.InArea ⟨1, size⟩ ∧
      s.mgr.objTop = ⟨1, size⟩ ∧ s.mgr.obj = ⟨1, size + 1⟩ := by
  obtain ⟨enlarging, taken, race, -⟩ := memMgrSteps_enlargeRace n size pos
  refine ⟨_, race, MemMgrRun.init.steps race, List.mem_cons_self, ?_, rfl, rfl⟩
  simp [MemMgr.InArea]

theorem memMgr_enlarge_race_one_slot :
    0 < 1 ∧ ∃ s, memMgrSteps (enlargeRace 1 1) (memMgrInit 1) = some s ∧ MemMgrRun 1 s ∧
      (⟨1, 1⟩ : MemObj) ∈ s.live ∧ ¬s.mgr.InArea ⟨1, 1⟩ ∧
      s.mgr.objTop = ⟨1, 1⟩ ∧ s.mgr.obj = ⟨1, 1 + 1⟩ :=
  ⟨by decide, memMgr_enlarge_race_past_area 1 1 (by decide)⟩

/-! ## After the race -/

/-- The systems the threads reach from `s`. -/
inductive MemMgrFrom (s : MemMgrSystem) : MemMgrSystem → Prop
  | refl : MemMgrFrom s s
  | step {s' s'' : MemMgrSystem} (op : MemMgrOp) : MemMgrFrom s s' → memMgrStep op s' = some s'' →
      MemMgrFrom s s''

/-- `mgr->obj` beyond `mgr->obj_top` in the active area, and no thread in
`system_malloc`. -/
structure MemMgrSystem.PastTop (s : MemMgrSystem) : Prop where
  sameArea : s.mgr.obj.area = s.mgr.objTop.area
  past : s.mgr.objTop.index < s.mgr.obj.index
  idle : ∀ thread, s.enlarging thread = none

/-- The allocation keeps the areas and moves `mgr->obj` only up. -/
theorem memMgrAlloc_snd (mgr : MemMgr) :
    (memMgrAlloc mgr).2.areaList = mgr.areaList ∧ (memMgrAlloc mgr).2.activeArea = mgr.activeArea ∧
      (memMgrAlloc mgr).2.objTop = mgr.objTop ∧ (memMgrAlloc mgr).2.obj.area = mgr.obj.area ∧
      mgr.obj.index ≤ (memMgrAlloc mgr).2.obj.index := by
  unfold memMgrAlloc
  split <;> simp

/-- Past the top, a call never finds the area used up: it neither activates
an area nor calls `system_malloc`, and `mgr->obj` only grows. -/
theorem MemMgrSystem.PastTop.step {s s' : MemMgrSystem} {op : MemMgrOp} (past : s.PastTop)
    (stepped : memMgrStep op s = some s') :
    s'.PastTop ∧ s'.mgr.areaList = s.mgr.areaList ∧ s'.mgr.activeArea = s.mgr.activeArea ∧
      s'.mgr.objTop = s.mgr.objTop := by
  cases op with
  | get thread size =>
    have room : s.mgr.obj ≠ s.mgr.objTop := fun same => by
      have beyond := past.past
      rw [same] at beyond
      omega
    simp only [memMgrStep, past.idle thread, getMemObjEnter_of_ne size room, Option.some.injEq] at stepped
    subst stepped
    obtain ⟨areas, active, top, area, grows⟩ := memMgrAlloc_snd s.mgr
    refine ⟨⟨?_, ?_, past.idle⟩, areas, active, top⟩
    · rw [area, top]
      exact past.sameArea
    · rw [top]
      exact Nat.lt_of_lt_of_le past.past grows
  | malloc thread ok =>
    simp [memMgrStep, past.idle thread] at stepped
  | free mobj =>
    simp only [memMgrStep] at stepped
    split_ifs at stepped
    cases stepped
    exact ⟨⟨past.sameArea, past.past, past.idle⟩, rfl, rfl, rfl⟩

/-- Once past the top, the manager stays there with the same areas, whatever
its threads do. -/
theorem MemMgrFrom.pastTop {s s' : MemMgrSystem} (reach : MemMgrFrom s s') (past : s.PastTop) :
    s'.PastTop ∧ s'.mgr.areaList = s.mgr.areaList ∧ s'.mgr.activeArea = s.mgr.activeArea ∧
      s'.mgr.objTop = s.mgr.objTop := by
  induction reach with
  | refl => exact ⟨past, rfl, rfl, rfl⟩
  | step op _ stepped ih =>
    obtain ⟨past', areas, active, top⟩ := ih
    obtain ⟨past'', areas', active', top'⟩ := past'.step stepped
    exact ⟨past'', areas'.trans areas, active'.trans active, top'.trans top⟩

/-- After the interleaving the manager never recovers: whatever its threads
do next, the area thread 2 added stays in the list and is never activated,
and `mgr->obj`, which the next allocation from the top hands out, lies in no
area. -/
theorem memMgr_enlarge_race_never_recovers (n size : Nat) (pos : 0 < size) :
    ∃ s, memMgrSteps (enlargeRace n size) (memMgrInit n) = some s ∧
      ∀ s', MemMgrFrom s s' → (⟨2, size⟩ : MemArea) ∈ s'.mgr.areaList ∧
        s'.mgr.activeArea = ⟨1, size⟩ ∧ ¬s'.mgr.InArea s'.mgr.obj := by
  obtain ⟨enlarging, taken, race, idle⟩ := memMgrSteps_enlargeRace n size pos
  refine ⟨_, race, fun s' reach => ?_⟩
  obtain ⟨past, areas, active, top⟩ := reach.pastTop ⟨rfl, Nat.lt_succ_self size, idle⟩
  dsimp only at areas active top
  obtain ⟨sameArea, beyond, -⟩ := past
  rw [top] at sameArea beyond
  refine ⟨by simp [areas], active, ?_⟩
  rintro ⟨area, mem, sameId, inside⟩
  rw [areas] at mem
  simp only [List.mem_cons, List.not_mem_nil, or_false] at mem
  dsimp only at beyond sameArea
  rcases mem with rfl | rfl | rfl <;> dsimp only at sameId inside <;> omega

theorem memMgr_enlarge_race_never_recovers_one_slot :
    0 < 1 ∧ ∃ s, memMgrSteps (enlargeRace 1 1) (memMgrInit 1) = some s ∧
      ∀ s', MemMgrFrom s s' → (⟨2, 1⟩ : MemArea) ∈ s'.mgr.areaList ∧
        s'.mgr.activeArea = ⟨1, 1⟩ ∧ ¬s'.mgr.InArea s'.mgr.obj :=
  ⟨by decide, memMgr_enlarge_race_never_recovers 1 1 (by decide)⟩

end Gramine.Common
