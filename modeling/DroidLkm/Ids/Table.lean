/-
  Identifiers of IPC objects — the table (`ipc_util.c`, `ipc_util.h`).

  `IpcIds` is a `struct ipc_ids` with the objects it has seen: the idr, the hash
  table of keys, the number of objects, the highest index and the sequence
  number.  The writer's lock is held over each function, so each is one step;
  `next_id` is not set.

  * `ipcAddid`, `ipcRmid`, `ipcSetKeyPrivate`, `ipcObtainObjectCheck`, `ipcget`;
  * `Act`, `IpcIds.step`: what is done to a table, in any order.
-/
import Mathlib.Data.Int.Notation
import Mathlib.Logic.Function.Basic
import DroidLkm.Errno
import DroidLkm.Lib.BitSearch
import DroidLkm.Lib.Idr
import DroidLkm.Lib.Machine

namespace DroidLkm.Ids

/-- `ipc_mni_shift`, with `ipc_mni` the power of two, and `ipc_min_cycle`; the
    shift is 15, or 24 in the extended mode. -/
structure Limits where
  shift : ℕ
  minCycle : ℕ
  shift_le : shift ≤ 24

namespace Limits

/-- `IPCMNI_SHIFT` and `RADIX_TREE_MAP_SIZE`, without the extended mode. -/
def std : Limits := ⟨15, 64, by decide⟩

variable (l : Limits)

def mni : ℕ := 2 ^ l.shift

/-- `ipcid_seq_max()` -/
def seqMax : ℕ := 2147483647 / 2 ^ l.shift

/-- `ipcid_to_idx(id)` -/
def toIdx (id : ℤ) : ℕ := (id % 2 ^ l.shift).toNat

/-- `ipcid_to_seqx(id)` -/
def toSeqx (id : ℤ) : ℤ := id / 2 ^ l.shift

end Limits

def IPC_PRIVATE : ℤ := 0

/-- `struct kern_ipc_perm` -/
structure Perm where
  key : ℤ
  seq : ℕ
  id : ℤ
  deleted : Bool
  deriving DecidableEq

/-- `struct ipc_ids`.  Objects are named by numbers that are not used again;
    `fresh` is the next one. -/
structure IpcIds where
  inUse : ℤ
  seq : ℕ
  maxIdx : ℤ
  lastIdx : ℤ
  idr : Idr ℕ
  keyHt : List ℕ
  perm : ℕ → Perm
  fresh : ℕ

/-- What can fail in `ipc_addid`: memory for the index, and the insertion into
    the key table, with a negative error. -/
structure AddEnv where
  noMem : Bool
  insertErr : ℤ
  deriving DecidableEq

namespace IpcIds

/-- `ipc_init_ids` -/
def init : IpcIds := ⟨0, 0, -1, -1, Idr.empty, [], fun _ => ⟨IPC_PRIVATE, 0, 0, true⟩, 0⟩

def setPerm (s : IpcIds) (p : ℕ) (x : Perm) : IpcIds := { s with perm := Function.update s.perm p x }

def setDeleted (s : IpcIds) (p : ℕ) (b : Bool) : IpcIds := s.setPerm p { s.perm p with deleted := b }

/-- The sequence number that goes with an index. -/
def nextSeq (l : Limits) (s : IpcIds) (idx : ℕ) : ℕ :=
  if idx ≤ s.lastIdx then (if l.seqMax ≤ s.seq + 1 then 0 else s.seq + 1) else s.seq

/-- `ipc_idr_alloc` -/
def ipcIdrAlloc (l : Limits) (s : IpcIds) (new : ℕ) (noMem : Bool) : IpcIds × Except ℤ ℕ :=
  let maxIdx := min (max (Int.tdiv (s.inUse * 3) 2) l.minCycle) l.mni
  if noMem then (s, .error (-ENOMEM))
  else match s.idr.allocCyclic new maxIdx.toNat with
    | none => (s, .error (-ENOSPC))
    | some (idx, idr) =>
      let seq := s.nextSeq l idx
      let id : ℤ := seq * 2 ^ l.shift + idx
      ({ s with
        seq := seq
        lastIdx := idx
        idr := idr
        perm := Function.update s.perm new { s.perm new with seq := seq, id := id } }, .ok idx)

/-- `ipc_addid` -/
def ipcAddid (l : Limits) (s : IpcIds) (new : ℕ) (limit : ℤ) (e : AddEnv) : IpcIds × Except ℤ ℕ :=
  let limit := if l.mni < limit then (l.mni : ℤ) else limit
  if limit ≤ s.inUse then (s, .error (-ENOSPC))
  else match (s.setDeleted new false).ipcIdrAlloc l new e.noMem with
    | (s, .error err) => (s.setDeleted new true, .error err)
    | (s, .ok idx) =>
      if (s.perm new).key ≠ IPC_PRIVATE ∧ e.insertErr < 0 then
        ({ s with idr := s.idr.remove idx }.setDeleted new true, .error e.insertErr)
      else ({ s with
        keyHt := if (s.perm new).key ≠ IPC_PRIVATE then new :: s.keyHt else s.keyHt
        inUse := s.inUse + 1
        maxIdx := if s.maxIdx < idx then (idx : ℤ) else s.maxIdx }, .ok idx)

/-- `ipc_search_maxidx` -/
def ipcSearchMaxidx (r : Idr ℕ) (limit : ℕ) : ℤ :=
  BitSearch.search (fun tmp => (r.getNext (tmp - 1)).isSome) (Nat.log2 (limit + 1) + 1) 0 - 1

/-- `ipc_get_maxidx` -/
def ipcGetMaxidx (l : Limits) (s : IpcIds) : ℤ :=
  if s.inUse = 0 then -1 else if s.inUse = l.mni then l.mni - 1 else s.maxIdx

/-- `ipc_kht_remove` -/
def ipcKhtRemove (s : IpcIds) (p : ℕ) : IpcIds :=
  if (s.perm p).key ≠ IPC_PRIVATE then { s with keyHt := s.keyHt.erase p } else s

/-- The highest index after one has been removed. -/
def maxIdxWithout (s : IpcIds) (idx : ℕ) : ℤ :=
  if idx = s.maxIdx then
    if 0 ≤ s.maxIdx - 1 then ipcSearchMaxidx s.idr (s.maxIdx - 1).toNat else s.maxIdx - 1
  else s.maxIdx

/-- `ipc_rmid` -/
def ipcRmid (l : Limits) (s : IpcIds) (p : ℕ) : IpcIds :=
  let idx := l.toIdx (s.perm p).id
  let s := { s with idr := s.idr.remove idx }
  let s := s.ipcKhtRemove p
  let s := { s with inUse := s.inUse - 1 }
  let s := s.setDeleted p true
  { s with maxIdx := s.maxIdxWithout idx }

/-- `ipc_set_key_private` -/
def ipcSetKeyPrivate (s : IpcIds) (p : ℕ) : IpcIds :=
  let s := s.ipcKhtRemove p
  s.setPerm p { s.perm p with key := IPC_PRIVATE }

/-- `ipc_obtain_object_idr` -/
def ipcObtainObjectIdr (l : Limits) (s : IpcIds) (id : ℤ) : Except ℤ ℕ :=
  match s.idr.find (l.toIdx id) with
  | none => .error (-EINVAL)
  | some p => .ok p

/-- `ipc_checkid` -/
def ipcCheckid (l : Limits) (x : Perm) (id : ℤ) : Bool := l.toSeqx id != x.seq

/-- `ipc_obtain_object_check` -/
def ipcObtainObjectCheck (l : Limits) (s : IpcIds) (id : ℤ) : Except ℤ ℕ :=
  match s.ipcObtainObjectIdr l id with
  | .error err => .error err
  | .ok p => if ipcCheckid l (s.perm p) id then .error (-EINVAL) else .ok p

/-! ## Looking up a key -/

/-- The arguments of a `…get` call and what decides it: the flags, the error of
    `getnew` before `ipc_addid` and of the checks of an object that is there
    (0 for none), and the limit that `getnew` passes on. -/
structure GetArgs where
  key : ℤ
  creat : Bool
  excl : Bool
  before : ℤ
  checks : ℤ
  limit : ℤ
  env : AddEnv
  deriving DecidableEq

/-- `getnew`, as far as the table goes: `newque`, `newary` and `newseg`. -/
def getnew (l : Limits) (s : IpcIds) (a : GetArgs) : IpcIds × Except ℤ ℤ :=
  if a.before ≠ 0 then (s, .error a.before)
  else
    let new := s.fresh
    let s := { s.setPerm new ⟨a.key, 0, 0, false⟩ with fresh := new + 1 }
    match s.ipcAddid l new a.limit a.env with
    | (s, .error err) => (s, .error err)
    | (s, .ok _) => (s, .ok (s.perm new).id)

/-- `ipc_findkey` -/
def ipcFindkey (s : IpcIds) (key : ℤ) : Option ℕ := s.keyHt.find? fun p => (s.perm p).key == key

/-- `ipcget_public` -/
def ipcgetPublic (l : Limits) (s : IpcIds) (a : GetArgs) : IpcIds × Except ℤ ℤ :=
  match s.ipcFindkey a.key with
  | none => if !a.creat then (s, .error (-ENOENT)) else s.getnew l a
  | some p =>
    if a.creat && a.excl then (s, .error (-EEXIST))
    else if a.checks ≠ 0 then (s, .error a.checks)
    else (s, .ok (s.perm p).id)

/-- `ipcget` -/
def ipcget (l : Limits) (s : IpcIds) (a : GetArgs) : IpcIds × Except ℤ ℤ :=
  if a.key = IPC_PRIVATE then s.getnew l a else s.ipcgetPublic l a

/-! ## The machine -/

/-- What is done to a table. -/
inductive Act where
  | get (a : GetArgs)
  /-- `ipc_addid` of a new object, whatever its key -/
  | addid (key limit : ℤ) (e : AddEnv)
  | rmid (p : ℕ)
  | setKeyPrivate (p : ℕ)

/-- The object is in the idr. -/
def live (s : IpcIds) (p : ℕ) : Bool := s.idr.slots.entries.any fun x => x.2 == p

def step (l : Limits) (s : IpcIds) : Act → Option IpcIds
  | .get a => some (s.ipcget l a).1
  | .addid key limit e =>
    some ({ s.setPerm s.fresh ⟨key, 0, 0, false⟩ with fresh := s.fresh + 1 }.ipcAddid l s.fresh
      limit e).1
  | .rmid p => if s.live p then some (s.ipcRmid l p) else none
  | .setKeyPrivate p => if s.live p then some (s.ipcSetKeyPrivate p) else none

end IpcIds

end DroidLkm.Ids
