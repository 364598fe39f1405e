/-
  Identifiers of IPC objects — the objects of a namespace that goes away.

  `ds_free_ipcs` (`ipc_util.c`) with what `ds_sem_exit_ns`, `ds_msg_exit_ns` and
  `ds_shm_exit_ns` have it call for each object.

  * `World`: the three tables of a namespace, their objects, the tasks asleep in
    them, and the locks that the caller holds;
  * `freeary`, `freeque`, `doShmRmid`: the callbacks, entered with the object's
    lock held;
  * `dsFreeIpcs`: the loop, which counts what it finds;
  * `Filed`: an object stands at the index of its identifier, so that a callback
    takes out what the loop has found.
-/
import DroidLkm.Ids.Aliasing
import DroidLkm.Lib.Sweep
import DroidLkm.Msg.Accounts
import DroidLkm.Sem.Update
import DroidLkm.Shm.Lifetime

namespace DroidLkm.Ids.FreeAll

open Ids.Quotas Sem Msg Machine

/-- `IPC_SEM_IDS`, `IPC_MSG_IDS`, `IPC_SHM_IDS` -/
inductive Kind where
  | sem
  | msg
  | shm
  deriving DecidableEq

inductive Lock where
  /-- the writer's side of `ids->rwsem` -/
  | rwsem (k : Kind)
  | rcu
  /-- the spinlock of an object -/
  | object (k : Kind) (p : ℕ)
  deriving DecidableEq

/-- A namespace: `shm` has the tables of arrays and segments with their counters, and
    what the segments are; `self` is its name in the records of message accounts. -/
structure World where
  self : ℕ
  shm : Shm.Life.St
  array : ℕ → SemArray
  /-- `un->semid` -/
  semid : ℕ → ℤ
  /-- `ulp->list_proc` of each owner of undo structures -/
  listProc : ℕ → List ℕ
  /-- the sleepers on arrays that have been woken, with their status -/
  woken : List (SemQueue × ℤ)
  msg : IpcIds
  queue : ℕ → MsgQueue
  msr : ℕ → MsgReceiver
  acctList : List MsgAcct
  locks : List Lock

namespace World

variable (b : Build) (w : World)

def ids : Kind → IpcIds
  | .sem => w.shm.ns.sem
  | .msg => w.msg
  | .shm => w.shm.ns.shm

def lock (x : Lock) : World := { w with locks := x :: w.locks }

def unlock (x : Lock) : World := { w with locks := w.locks.erase x }

/-- `ipc_unlock` -/
def ipcUnlock (k : Kind) (p : ℕ) : World := (w.unlock (.object k p)).unlock .rcu

/-- The queues of an array, in the order in which `freeary` goes through them. -/
def heads (sma : SemArray) : List Head :=
  .const :: .alter :: (List.range sma.semNsems).flatMap fun i => [.semConst i, .semAlter i]

/-- The sleepers on an array. -/
def sleepers (sma : SemArray) : List SemQueue := (heads sma).flatMap sma.pending

/-- `freeary` -/
def freeary (p : ℕ) : World :=
  let sma := w.array p
  let w := { w with
    semid := fun u => if u ∈ sma.listId then -1 else w.semid u
    listProc := fun o => (w.listProc o).filter (· ∉ sma.listId)
    woken := w.woken ++ (sleepers sma).map fun q => (q, -EIDRM)
    array := Function.update w.array p { sma with
      listId := []
      pending := fun k => if k ∈ heads sma then [] else sma.pending k
      complexCount := sma.complexCount -
        (sleepers sma).countP fun q : SemQueue => 1 < q.sops.length } }
  { w with shm := { w.shm with ns := w.shm.ns.freeary b p } }.ipcUnlock .sem p

/-- `freeque` -/
def freeque (p : ℕ) : World :=
  let msq := w.queue p
  let acctList := msq.qMessages.foldl (fun l _ => msgAcctHdrs l w.self (-1)) w.acctList
  { w with
    msr := expungeAll w.msr msq.qReceivers (-EIDRM)
    queue := Function.update w.queue p
      { ssWakeup msq true with qMessages := [], valid := false }
    msg := w.msg.ipcRmid b.limits p
    acctList := msgAcctBytes acctList w.self (-msq.qCbytes) }.ipcUnlock .msg p

/-- `do_shm_rmid` -/
def doShmRmid (p : ℕ) : World := { w with shm := w.shm.doShmRmid b p }.ipcUnlock .shm p

/-- What the namespace's exit has called for each object. -/
def free : Kind → ℕ → World
  | .sem => w.freeary b
  | .msg => w.freeque b
  | .shm => w.doShmRmid b

/-- The body of the loop for an object that it has found. -/
def visit (k : Kind) (w : World) (p : ℕ) : World :=
  ((w.lock .rcu).lock (.object k p)).free b k p

/-- `ds_free_ipcs`, with the calls of `free` by index and object; `none` if the fuel
    does not last. -/
def dsFreeIpcs (k : Kind) (fuel : ℕ) : Option (World × List (ℕ × ℕ)) :=
  let w := w.lock (.rwsem k)
  let inUse := (w.ids k).inUse
  (Sweep.run (fun w i => (w.ids k).idr.find i) (visit b k) fuel inUse 0 0 w).map fun r =>
    (r.1.unlock (.rwsem k), r.2)

end World

/-- Each object stands at the index of its identifier. -/
def Filed (l : Limits) (s : IpcIds) : Prop :=
  ∀ i p, s.idr.find i = some p → l.toIdx (s.perm p).id = i

variable {b : Build} {l : Limits} {s : IpcIds} {w : World} {k : Kind} {i j p q : ℕ}
  {ls : List Lock}

/-- It is so in every table that is made by the functions of `ipc_util.c`. -/
theorem run_filed (h : Run (IpcIds.step l) IpcIds.init s) : Filed l s := by
  intro i p hi
  obtain ⟨-, hlt, -, hid⟩ := (IpcIds.run_stamped h).found i p hi
  rw [hid]
  exact toIdx_mkId hlt

theorem Filed.lt (h : Filed l s) (hi : s.idr.find i = some p) : i < l.mni := by
  rw [← h i p hi, Limits.toIdx, Limits.mni]
  have hpos : (0 : ℤ) < 2 ^ l.shift := Int.pow_pos (by decide)
  have hlt := Int.emod_lt_of_pos (s.perm p).id hpos
  have hnat : ((2 ^ l.shift : ℕ) : ℤ) = 2 ^ l.shift := by simp
  omega

/-- Then an object stands at one index only. -/
theorem Filed.unique (h : Filed l s) (hi : s.idr.find i = some p) (hj : s.idr.find j = some p) :
    i = j := (h i p hi).symm.trans (h j p hj)

/-- and the objects of entries in ascending order are different ones. -/
theorem Filed.nodup {es : List (ℕ × ℕ)} (h : Filed l s) (hes : Ahead s.idr.find i es) :
    (es.map Prod.snd).Nodup := by
  refine List.pairwise_map.2 (hes.asc.imp_of_mem ?_)
  intro x y hx hy hlt heq
  have hsame : x.1 = y.1 := h.unique (hes.find_eq hx) (by rw [heq]; exact hes.find_eq hy)
  omega

/-! ## A callback -/

theorem Filed.rmid (h : Filed l s) (hi : s.idr.find i = some p) :
    Filed l (s.ipcRmid l p) ∧ (s.ipcRmid l p).idr = s.idr.remove i := by
  have hr := IpcIds.ipcRmid_removed (h i p hi)
  refine ⟨fun j q hj => ?_, hr.idr⟩
  rw [hr.idr, Idr.find_remove] at hj
  split at hj
  · cases hj
  next hne =>
    have hqp : q ≠ p := by
      rintro rfl
      exact hne (h.unique hj hi)
    rw [hr.perm, Function.update_of_ne hqp]
    exact h j q hj

theorem ipcSetKeyPrivate_idr : (s.ipcSetKeyPrivate p).idr = s.idr := by
  unfold IpcIds.ipcSetKeyPrivate IpcIds.ipcKhtRemove
  dsimp only
  split <;> rfl

theorem ipcSetKeyPrivate_id : ((s.ipcSetKeyPrivate p).perm q).id = (s.perm q).id := by
  unfold IpcIds.ipcSetKeyPrivate IpcIds.ipcKhtRemove
  dsimp only
  by_cases hq : q = p
  · subst hq
    split <;> simp [IpcIds.setPerm]
  · split <;> simp [IpcIds.setPerm, hq]

theorem Filed.keyPrivate (h : Filed l s) : Filed l (s.ipcSetKeyPrivate p) := by
  intro j q hj
  rw [ipcSetKeyPrivate_idr] at hj
  rw [ipcSetKeyPrivate_id]
  exact h j q hj

/-- The object is a segment that is attached: it is only marked. -/
def World.Stays (w : World) (k : Kind) (p : ℕ) : Prop := k = .shm ∧ w.shm.nattch p ≠ 0

theorem visit_ids (k : Kind) (w : World) (p : ℕ) :
    w.Stays k p ∧ (World.visit b k w p).ids k = (w.ids k).ipcSetKeyPrivate p ∨
      ¬w.Stays k p ∧ (World.visit b k w p).ids k = (w.ids k).ipcRmid b.limits p := by
  cases k with
  | sem => exact .inr ⟨(fun h => by cases h.1), rfl⟩
  | msg => exact .inr ⟨(fun h => by cases h.1), rfl⟩
  | shm =>
    by_cases hatt : w.shm.nattch p ≠ 0
    · refine .inl ⟨⟨rfl, hatt⟩, ?_⟩
      exact congrArg (fun s : Shm.Life.St => s.ns.shm) (if_pos hatt)
    · refine .inr ⟨fun h => hatt h.2, ?_⟩
      exact congrArg (fun s : Shm.Life.St => s.ns.shm) (if_neg hatt)

theorem visit_nattch (k : Kind) (w : World) (p : ℕ) :
    (World.visit b k w p).shm.nattch = w.shm.nattch := by
  cases k with
  | sem => rfl
  | msg => rfl
  | shm =>
    show (w.shm.doShmRmid b p).nattch = w.shm.nattch
    unfold Shm.Life.St.doShmRmid
    split <;> rfl

/-- A callback releases the two locks with which it is called. -/
theorem visit_locks (k : Kind) (w : World) (p : ℕ) :
    (World.visit b k w p).locks = w.locks := by
  cases k <;>
    simp [World.visit, World.free, World.freeary, World.freeque, World.doShmRmid,
      World.ipcUnlock, World.unlock, World.lock]

/-- What every visit keeps, from the state `w` on. -/
structure Steady (b : Build) (k : Kind) (w w' : World) : Prop where
  filed : Filed b.limits (w'.ids k)
  nattch : w'.shm.nattch = w.shm.nattch
  locks : w'.locks = w.locks

theorem visit_local (b : Build) (k : Kind) (w : World) :
    Sweep.Local (fun w i => (w.ids k).idr.find i) (World.visit b k) (Steady b k w) := by
  intro w' i p h hi
  have hkept : ∀ ids, (World.visit b k w' p).ids k = ids → Filed b.limits ids →
      Steady b k w (World.visit b k w' p) := by
    rintro ids rfl hfiled
    exact ⟨hfiled, (visit_nattch k w' p).trans h.nattch, (visit_locks k w' p).trans h.locks⟩
  rcases visit_ids (b := b) k w' p with ⟨-, hids⟩ | ⟨-, hids⟩
  · refine ⟨hkept _ hids h.filed.keyPrivate, fun j _ => ?_⟩
    dsimp only
    rw [hids, ipcSetKeyPrivate_idr]
  · obtain ⟨hfiled, hidr⟩ := h.filed.rmid hi
    refine ⟨hkept _ hids hfiled, fun j hj => ?_⟩
    dsimp only
    rw [hids, hidr, Idr.find_remove, if_neg hj]

/-! ## The loop -/

theorem lock_ids (w : World) (x : Lock) (k : Kind) : (w.lock x).ids k = w.ids k := by
  cases k <;> rfl

theorem unlock_ids (w : World) (x : Lock) (k : Kind) : (w.unlock x).ids k = w.ids k := by
  cases k <;> rfl

/-- Only attached segments are left. -/
theorem visits_left {es : List (ℕ × ℕ)} (hs : Steady b k w w)
    (hes : Ahead (fun i => (w.ids k).idr.find i) 0 es) :
    ((Sweep.visits (World.visit b k) w es).ids k).idr.find i = some p ↔
      (w.ids k).idr.find i = some p ∧ w.Stays k p := by
  cases hi : (w.ids k).idr.find i with
  | none =>
    have hother : ∀ e ∈ es, i ≠ e.1 := by
      rintro e he rfl
      have hfind : (w.ids k).idr.find e.1 = some e.2 := hes.find_eq he
      rw [hi] at hfind
      cases hfind
    have hleft := Sweep.visits_elsewhere (visit_local b k w) hs hes hother
    rw [hleft, hi]
    exact iff_of_false (fun h => by cases h) (fun h => by cases h.1)
  | some q =>
    have hmem : (i, q) ∈ es := (hes.mem i q).2 ⟨Nat.zero_le i, hi⟩
    obtain ⟨t, ht, hfind, hat⟩ := Sweep.visits_at (visit_local b k w) hs hes hmem
    dsimp only at hfind hat
    have hstays : t.Stays k q ↔ w.Stays k q := by
      rw [World.Stays, World.Stays, ht.nattch]
    rw [hat]
    rcases visit_ids (b := b) k t q with ⟨hstay, hids⟩ | ⟨hgone, hids⟩
    · rw [hids, ipcSetKeyPrivate_idr, hfind]
      refine (and_iff_left_of_imp fun hp => ?_).symm
      cases hp
      exact hstays.1 hstay
    · rw [hids, (ht.filed.rmid hfind).2, Idr.find_remove, if_pos rfl]
      refine iff_of_false (fun h => by cases h) fun h => ?_
      cases h.1
      exact hgone (hstays.2 h.2)

/-- **Every object once.**  If `in_use` is the number of objects, the loop ends, and has
    called `free` for the objects that were there when it began, once for each and in
    the order of their indices; the locks are released, and of the objects only attached
    segments are left. -/
theorem freeIpcs_once (b : Build) (k : Kind) (w : World) (hfiled : Filed b.limits (w.ids k))
    (hcount : (w.ids k).inUse = (w.ids k).idr.size) :
    ∃ n w' calls, (∀ fuel, n ≤ fuel → w.dsFreeIpcs b k fuel = some (w', calls)) ∧
      (calls.length : ℤ) = (w.ids k).inUse ∧
      (calls.map Prod.fst).Pairwise (· < ·) ∧ (calls.map Prod.snd).Nodup ∧
      (∀ i p, (i, p) ∈ calls ↔ (w.ids k).idr.find i = some p) ∧
      w'.locks = w.locks ∧
      ∀ i p, (w'.ids k).idr.find i = some p ↔ (w.ids k).idr.find i = some p ∧ w.Stays k p := by
  obtain ⟨w₁, hw₁⟩ : ∃ w₁, w₁ = w.lock (.rwsem k) := ⟨_, rfl⟩
  have hids : w₁.ids k = w.ids k := by rw [hw₁, lock_ids]
  have hstart : Steady b k w₁ w₁ := ⟨by rw [hids]; exact hfiled, rfl, rfl⟩
  obtain ⟨es, hes⟩ : ∃ es, es = (w.ids k).idr.ascending := ⟨_, rfl⟩
  have hahead : Ahead (fun i => (w₁.ids k).idr.find i) 0 es := by
    rw [hids, hes]
    exact (w.ids k).idr.ahead_ascending
  have hlength : (es.length : ℤ) = (w.ids k).inUse := by
    rw [hes, Idr.length_ascending, hcount]
  have hfind : ∀ i p, (i, p) ∈ es ↔ (w.ids k).idr.find i = some p := fun i p => by
    rw [hes, Idr.mem_ascending]
  obtain ⟨n, hrun⟩ := Sweep.run_ends (visit_local b k w₁) hstart hahead hlength
  have hend := Sweep.visits_keep (visit_local b k w₁) hstart hahead
  refine ⟨n, (Sweep.visits (World.visit b k) w₁ es).unlock (.rwsem k), es, ?_, hlength, ?_, ?_,
    hfind, ?_, fun i p => ?_⟩
  · intro fuel hfuel
    show (Sweep.run _ _ fuel ((w.lock (.rwsem k)).ids k).inUse 0 0 (w.lock (.rwsem k))).map _ = _
    rw [← hw₁, hids, hrun fuel hfuel]
    rfl
  · exact List.pairwise_map.2 hahead.asc
  · rw [hids] at hahead
    exact hfiled.nodup hahead
  · show (Sweep.visits (World.visit b k) w₁ es).locks.erase _ = w.locks
    rw [hend.locks, hw₁]
    exact List.erase_cons_head ..
  · have hstays : w₁.Stays k p ↔ w.Stays k p := by
      rw [hw₁]
      exact Iff.rfl
    rw [unlock_ids, visits_left hstart hahead, hids, hstays]

/-- Two segments, at the indices 1 and 5, of which the second is attached. -/
def sparse : World where
  self := 0
  shm := { Shm.Life.St.init false with
    ns := { Ns.init with shm := { IpcIds.init with
      inUse := 2
      maxIdx := 5
      lastIdx := 5
      idr := ⟨(⟨(Idr.empty : Idr ℕ).slots.insert 1 0, 2⟩ : Idr ℕ).slots.insert 5 1, 6⟩
      perm := fun p => ⟨IPC_PRIVATE, 0, if p = 0 then 1 else 5, false⟩
      fresh := 2 } }
    nattch := fun p => p }
  array := fun _ => ⟨0, fun _ => 0, fun _ => [], [], 0, 0⟩
  semid := fun _ => -1
  listProc := fun _ => []
  woken := []
  msg := IpcIds.init
  queue := fun _ => ⟨0, 0, 0, [], [], [], false⟩
  msr := fun _ => ⟨.any, 0, 0, .err 0⟩
  acctList := []
  locks := []

theorem sparse_find (i : ℕ) : (sparse.ids .shm).idr.find i =
    if i = 5 then some 1 else if i = 1 then some 0 else none := by
  show (⟨(⟨(Idr.empty : Idr ℕ).slots.insert 1 0, 2⟩ : Idr ℕ).slots.insert 5 1, 6⟩ :
    Idr ℕ).find i = _
  rw [Idr.find_insert, Idr.find_insert, Idr.find_empty]

theorem sparse_filed : Filed someBuild.limits (sparse.ids .shm) := by
  intro i p hi
  rw [sparse_find] at hi
  split_ifs at hi with h5 h1
  · cases hi
    exact h5.symm
  · cases hi
    exact h1.symm

theorem freeIpcs_once_sparse :
    ∃ n w' calls,
      (∀ fuel, n ≤ fuel → sparse.dsFreeIpcs someBuild .shm fuel = some (w', calls)) ∧
      (calls.length : ℤ) = (sparse.ids .shm).inUse ∧
      (calls.map Prod.fst).Pairwise (· < ·) ∧ (calls.map Prod.snd).Nodup ∧
      (∀ i p, (i, p) ∈ calls ↔ (sparse.ids .shm).idr.find i = some p) ∧
      w'.locks = sparse.locks ∧
      ∀ i p, (w'.ids .shm).idr.find i = some p ↔
        (sparse.ids .shm).idr.find i = some p ∧ sparse.Stays .shm p :=
  freeIpcs_once someBuild .shm sparse sparse_filed (by decide)

end DroidLkm.Ids.FreeAll
