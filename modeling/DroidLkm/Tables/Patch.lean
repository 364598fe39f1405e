/-
  The syscall tables, and the slots of them that the module takes over.

  * `slotPatch`, `slotUnpatch`: one slot, with the table of saved entries;
  * `IpcCall`: the rows of `DROID_LKM_IPC_ROWS`;
  * `slotInit`, `slotExit`: what `droid_lkm_slot_init` and `droid_lkm_slot_exit`
    do to the tables; the hooks they also set are not in them.

  What is outside (which tables the kernel has, whether a read or a write of a
  slot works) is given by an `Env`; a slot is patched at most once and taken back
  at most once between load and unload, so it is a function of the slot.
-/
import DroidLkm.Errno
import DroidLkm.Lib.SwapLog
import DroidLkm.Wiring.Classify
import Mathlib.Logic.Function.Basic

namespace DroidLkm.Tables

open Wiring

/-- `droid_lkm_sys_call_table` and `droid_lkm_compat_sys_call_table` -/
inductive Tab where
  | native
  | compat
  deriving DecidableEq

/-- The rows of `droid_lkm_ipc_slots`. -/
inductive IpcCall where
  | mqOpen | mqUnlink | mqTimedsend | mqTimedreceive | mqNotify | mqGetsetattr
  | msgget | msgctl | msgrcv | msgsnd
  | semget | semctl | semtimedop | semop
  | shmget | shmctl | shmat | shmdt
  deriving DecidableEq

namespace IpcCall

/-- `droid_lkm_ipc_slots` -/
def slots : List IpcCall :=
  [mqOpen, mqUnlink, mqTimedsend, mqTimedreceive, mqNotify, mqGetsetattr,
    msgget, msgctl, msgrcv, msgsnd, semget, semctl, semtimedop, semop, shmget, shmctl, shmat, shmdt]

/-- The number in the 64 bit table, from the kernel's `asm/unistd.h`. -/
def nr : IpcCall → ℤ
  | mqOpen => 180 | mqUnlink => 181 | mqTimedsend => 182 | mqTimedreceive => 183
  | mqNotify => 184 | mqGetsetattr => 185
  | msgget => 186 | msgctl => 187 | msgrcv => 188 | msgsnd => 189
  | semget => 190 | semctl => 191 | semtimedop => 192 | semop => 193
  | shmget => 194 | shmctl => 195 | shmat => 196 | shmdt => 197

/-- The number in the 32 bit table. -/
def nr32 : IpcCall → ℤ
  | mqOpen => 274 | mqUnlink => 275 | mqTimedsend => 276 | mqTimedreceive => 277
  | mqNotify => 278 | mqGetsetattr => 279
  | msgget => 303 | msgctl => 304 | msgrcv => 302 | msgsnd => 301
  | semget => 299 | semctl => 300 | semtimedop => 312 | semop => 298
  | shmget => 307 | shmctl => 308 | shmat => 305 | shmdt => 306

def needsMqueue : IpcCall → Bool
  | mqOpen | mqUnlink | mqTimedsend | mqTimedreceive | mqNotify | mqGetsetattr => true
  | _ => false

/-- The rows made with `X32`: they take a 32 bit timespec. -/
def time32 : IpcCall → Bool
  | mqTimedsend | mqTimedreceive | semtimedop => true
  | _ => false

end IpcCall

/-- The slots that the module takes over. -/
inductive Site where
  | unshare
  | reboot
  | clone
  | clone3
  | ipc (tab : Tab) (c : IpcCall)
  deriving DecidableEq

namespace Site

def tab : Site → Tab
  | ipc t _ => t
  | _ => .native

def nr : Site → ℤ
  | unshare => 97
  | reboot => 142
  | clone => 220
  | clone3 => 435
  | ipc .native c => c.nr
  | ipc .compat c => c.nr32

def slot (σ : Site) : Tab × ℤ := (σ.tab, σ.nr)

end Site

/-- `struct droid_lkm_slot_save` -/
structure Save where
  tab : Tab
  nr : ℤ
  orig : ℕ
  deriving DecidableEq

def Save.slot (e : Save) : Tab × ℤ := (e.tab, e.nr)

/-- `DROID_LKM_SLOT_SAVE_MAX` -/
def slotSaveMax : ℕ := 64

/-- The two tables and what the module keeps about them: `patched` is
    `droid_lkm_ipc_patched` and `droid_lkm_ipc32_patched`, `orig` the pointers
    `droid_lkm_orig_*`, 0 for `NULL`. -/
structure State where
  mem : Tab × ℤ → ℕ
  saves : List Save
  patched : Tab → IpcCall → Bool
  orig : Site → ℕ

namespace State

/-- The module has just been loaded. -/
def fresh (mem : Tab × ℤ → ℕ) : State := ⟨mem, [], fun _ _ => false, fun _ => 0⟩

/-- `droid_lkm_patch_write`; `err` is what it returns. -/
def patchWrite (s : State) (slot : Tab × ℤ) (val : ℕ) (err : ℤ) : ℤ × State :=
  (err, if err = 0 then { s with mem := Function.update s.mem slot val } else s)

def setOrig (s : State) (σ : Site) (was : ℕ) : State :=
  { s with orig := Function.update s.orig σ was }

def setPatched (s : State) (tab : Tab) (c : IpcCall) (b : Bool) : State :=
  { s with patched := Function.update s.patched tab (Function.update (s.patched tab) c b) }

/-- `droid_lkm_slot_patch`: what it returns, what it stores in `*orig_out`. -/
def slotPatch (s : State) (tab : Option Tab) (nr : ℤ) (fn : ℕ) (err : ℤ) :
    ℤ × Option ℕ × State :=
  match tab with
  | none => (-EINVAL, none, s)
  | some t =>
    if nr < 0 then (-EINVAL, none, s)
    else if slotSaveMax ≤ s.saves.length then (-ENOSPC, none, s)
    else if s.saves.any fun e => e.tab = t ∧ e.nr = nr then (-EEXIST, none, s)
    else
      let was := s.mem (t, nr)
      -- the entry is there before the write is tried
      let kept : State := { s with saves := s.saves ++ [⟨t, nr, was⟩] }
      let w := kept.patchWrite (t, nr) fn err
      (w.1, some was, w.2)

/-- `droid_lkm_slot_unpatch` -/
def slotUnpatch (s : State) (tab : Option Tab) (nr : ℤ) (err : ℤ) : State :=
  match tab with
  | none => s
  | some t =>
    match SwapLog.take Save.slot s.saves (t, nr) with
    | none => s
    | some (e, saves) => { (s.patchWrite (t, nr) e.orig err).2 with saves }

end State

/-- The kernel, the build, and how the reads and writes of the tables turn out:
    `patchErr` and `unpatchErr` are what `droid_lkm_patch_write` returns. -/
structure Env where
  /-- `sys_call_table` and `compat_sys_call_table` are found -/
  found : Tab → Bool
  /-- `CONFIG_COMPAT` -/
  compat : Bool
  /-- `CONFIG_COMPAT_32BIT_TIME` -/
  compat32BitTime : Bool
  skipSysvipc : Bool
  caps : Caps
  /-- `droid_lkm_mqueue_ready` -/
  mqueueReady : Bool
  scInit : ℤ
  /-- the module's entry for the slot -/
  fn : Site → ℕ
  /-- `sc_safe_read` can read the slot -/
  safeRead : Tab × ℤ → Bool
  patchErr : Tab × ℤ → ℤ
  unpatchErr : Tab × ℤ → ℤ

namespace Env

variable (e : Env)

/-- The pointer to the table. -/
def table : Tab → Option Tab
  | .native => if e.found .native then some .native else none
  | .compat => if e.compat && e.found .compat then some .compat else none

/-- The row has an `nr32` and an `fn32`. -/
def has32 (c : IpcCall) : Bool := e.compat && (!c.time32 || e.compat32BitTime)

/-- `droid_lkm_ipc_row_skipped` -/
def rowSkipped (c : IpcCall) : Bool := ipcRowSkipped e.caps e.mqueueReady ⟨c.needsMqueue⟩

/-- `droid_lkm_slot_patch` of a slot that has a pointer to its original. -/
def patch (σ : Site) (s : State) : ℤ × State :=
  let p := s.slotPatch (e.table σ.tab) σ.nr (e.fn σ) (e.patchErr σ.slot)
  (p.1, p.2.1.elim p.2.2 (p.2.2.setOrig σ))

def unpatch (σ : Site) (s : State) : State :=
  s.slotUnpatch (e.table σ.tab) σ.nr (e.unpatchErr σ.slot)

/-- `droid_lkm_ipc_attach` -/
def ipcAttach (tab : Tab) (c : IpcCall) (s : State) : ℤ × State :=
  let σ := Site.ipc tab c
  if e.table tab = none ∨ !e.safeRead σ.slot then (- EIO, s)
  else
    let p := s.slotPatch (e.table tab) σ.nr (e.fn σ) (e.patchErr σ.slot)
    if p.1 ≠ 0 then (- EIO, p.2.2)
    else (0, p.2.1.elim p.2.2 (p.2.2.setOrig σ))

/-- A row of `droid_lkm_slot_patch_ipc`, with how many were patched and skipped. -/
def ipcRow (w : State × ℕ × ℕ) (c : IpcCall) : State × ℕ × ℕ :=
  if e.rowSkipped c then (w.1, w.2.1, w.2.2 + 1)
  else
    let a := e.ipcAttach .native c w.1
    if a.1 ≠ 0 then (a.2, w.2)
    else (a.2.setPatched .native c true, w.2.1 + 1, w.2.2)

/-- A row of `droid_lkm_slot_patch_ipc_compat`. -/
def ipc32Row (s : State) (c : IpcCall) : State :=
  if !e.has32 c then s
  else if e.rowSkipped c then s
  else
    let a := e.ipcAttach .compat c s
    if a.1 ≠ 0 then a.2 else a.2.setPatched .compat c true

/-- `droid_lkm_slot_patch_ipc_compat` -/
def patchIpcCompat (s : State) : State :=
  if e.table .compat = none then s else IpcCall.slots.foldl e.ipc32Row s

/-- `droid_lkm_slot_patch_ipc` -/
def patchIpc (s : State) : ℤ × State :=
  if e.skipSysvipc then (0, s)
  else
    let w := IpcCall.slots.foldl e.ipcRow (s, 0, 0)
    (if w.2.1 = 0 ∧ w.2.2 = 0 then -ENODATA else 0, e.patchIpcCompat w.1)

/-- `droid_lkm_clone_slot_install` -/
def cloneSlotInstall (s : State) : ℤ × State :=
  let p := e.patch .clone s
  if p.1 ≠ 0 then p
  else
    let q := e.patch .clone3 p.2
    if q.1 ≠ 0 then (q.1, e.unpatch .clone q.2) else (0, q.2)

/-- `droid_lkm_slot_init` -/
def slotInit (s : State) : ℤ × State :=
  if e.scInit ≠ 0 then (e.scInit, s)
  else
    let p := e.patch .unshare s
    if p.1 ≠ 0 then p
    else
      let q := e.patch .reboot p.2
      if q.1 ≠ 0 then (q.1, e.unpatch .unshare q.2)
      -- that ipc and clone are not wired is only warned of
      else (0, (e.cloneSlotInstall (e.patchIpc q.2).2).2)

/-- `if (flag) unpatch` of a row -/
def exitTab (c : IpcCall) (s : State) (tab : Tab) : State :=
  if s.patched tab c then (e.unpatch (.ipc tab c) s).setPatched tab c false else s

/-- A row of `droid_lkm_slot_exit`. -/
def exitRow (s : State) (c : IpcCall) : State := [Tab.native, Tab.compat].foldl (e.exitTab c) s

/-- `if (droid_lkm_orig_x) unpatch` -/
def exitSite (s : State) (σ : Site) : State := if s.orig σ ≠ 0 then e.unpatch σ s else s

/-- `droid_lkm_slot_exit` -/
def slotExit (s : State) : State :=
  [Site.clone3, .clone, .reboot, .unshare].foldl e.exitSite (IpcCall.slots.foldl e.exitRow s)

/-- A load and, unless it fails, an unload. -/
def loadUnload (s : State) : State :=
  let p := e.slotInit s
  if p.1 ≠ 0 then p.2 else e.slotExit p.2

end Env

end DroidLkm.Tables
