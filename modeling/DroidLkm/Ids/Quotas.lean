/-
  Identifiers of IPC objects — what the limits of a namespace allow.

  * `Ns`: the limits and counters of a namespace with its tables of semaphore
    arrays and segments;
  * `newary`, `freeary`, `newseg`, `shmDestroy`: as in `ipc_sem.c` and
    `ipc_shm.c`, as far as counters and tables go;
  * `Same`: nothing that another call sees has changed, which is what a creation
    that fails leaves;
  * `Sound`: the counters are the sums over what is there, kept by the steps in
    which `newary` does not overflow;
  * `quotas`: what the limits then guarantee.
-/
import DroidLkm.Ids.Addid
import DroidLkm.Ids.Aliasing

namespace DroidLkm.Ids.Quotas

open Machine

/-- The settings of `ipc_mni`, `PAGE_SHIFT`, and the largest array `sem_alloc` takes. -/
structure Build where
  limits : Limits
  pageShift : ℕ
  semMax : ℤ
  pageShift_lt : pageShift < 64

/-- `struct ipc_namespace`, with `sem_nsems` and `shm_segsz` of the objects. -/
structure Ns where
  scSemmsl : ℤ
  scSemmns : ℤ
  scSemmni : ℤ
  usedSems : ℤ
  sem : IpcIds
  nsems : ℕ → ℤ
  shmCtlmax : ℕ
  shmCtlall : ℕ
  shmCtlmni : ℤ
  shmTot : ℕ
  shm : IpcIds
  segsz : ℕ → ℕ

/-- What can fail in a creation, with a negative error: memory, the security module, the
    file of a segment, and what can in `ipc_addid`; and the checks of an object that is there. -/
structure Env where
  noMem : Bool
  lsm : ℤ
  file : ℤ
  perms : ℤ
  add : AddEnv
  deriving DecidableEq

def INT_MAX : ℤ := 2147483647

/-- What an `int` holds after arithmetic. -/
def int (x : ℤ) : ℤ := x.bmod (2 ^ 32)

/-- What an `unsigned long` holds after arithmetic. -/
def ulong (x : ℕ) : ℕ := x % 2 ^ 64

def SHMMIN : ℕ := 1

namespace Ns

/-- `sem_init_ns`, `shm_init_ns` -/
def init : Ns := ⟨32000, 1024000000, 32000, 0, IpcIds.init, fun _ => 0,
  2 ^ 64 - 1 - 2 ^ 24, 2 ^ 64 - 1 - 2 ^ 24, 4096, 0, IpcIds.init, fun _ => 0⟩

/-- A new object of the table. -/
def newSem (s : Ns) (key nsems : ℤ) : Ns :=
  { s with sem := s.sem.newPerm key, nsems := Function.update s.nsems s.sem.fresh nsems }

def newShm (s : Ns) (key : ℤ) (size : ℕ) : Ns :=
  { s with shm := s.shm.newPerm key, segsz := Function.update s.segsz s.shm.fresh size }

/-- `newary` -/
def newary (b : Build) (s : Ns) (key nsems : ℤ) (e : Env) : Ns × Except ℤ ℤ :=
  if nsems = 0 then (s, .error (-EINVAL))
  else if int (s.usedSems + nsems) > s.scSemmns then (s, .error (-ENOSPC))
  else if nsems > b.semMax ∨ e.noMem then (s, .error (-ENOMEM))
  else if e.lsm ≠ 0 then (s, .error e.lsm)
  else
    let new := s.sem.fresh
    let s := s.newSem key nsems
    match s.sem.ipcAddid b.limits new s.scSemmni e.add with
    | (ids, .error err) => ({ s with sem := ids }, .error err)
    | (ids, .ok _) =>
      ({ s with sem := ids, usedSems := int (s.usedSems + nsems) }, .ok (ids.perm new).id)

/-- `freeary` -/
def freeary (b : Build) (s : Ns) (p : ℕ) : Ns :=
  { s with sem := s.sem.ipcRmid b.limits p, usedSems := int (s.usedSems - s.nsems p) }

/-- The pages of a segment. -/
def numpages (b : Build) (size : ℕ) : ℕ := ulong (size + (2 ^ b.pageShift - 1)) / 2 ^ b.pageShift

/-- `newseg` -/
def newseg (b : Build) (s : Ns) (key : ℤ) (size : ℕ) (e : Env) : Ns × Except ℤ ℤ :=
  let pages := numpages b size
  if size < SHMMIN ∨ size > s.shmCtlmax then (s, .error (-EINVAL))
  else if ulong (pages * 2 ^ b.pageShift) < size then (s, .error (-ENOSPC))
  else if ulong (s.shmTot + pages) < s.shmTot ∨ ulong (s.shmTot + pages) > s.shmCtlall then
    (s, .error (-ENOSPC))
  else if e.noMem then (s, .error (-ENOMEM))
  else if e.lsm ≠ 0 then (s, .error e.lsm)
  else if e.file ≠ 0 then (s, .error e.file)
  else
    let new := s.shm.fresh
    let s := s.newShm key size
    match s.shm.ipcAddid b.limits new s.shmCtlmni e.add with
    | (ids, .error err) => ({ s with shm := ids }, .error err)
    | (ids, .ok _) => ({ s with shm := ids, shmTot := ulong (s.shmTot + pages) },
      .ok (ids.perm new).id)

/-- `shm_destroy` -/
def shmDestroy (b : Build) (s : Ns) (p : ℕ) : Ns :=
  { s with
    shmTot := ulong (s.shmTot + (2 ^ 64 - numpages b (s.segsz p)))
    shm := s.shm.ipcRmid b.limits p }

/-- `ipcget`, with `getnew` and `more_checks` of the kind of object. -/
def ipcget (s : Ns) (ids : IpcIds) (key : ℤ) (creat excl : Bool) (moreChecks : ℕ → ℤ) (e : Env)
    (getnew : Ns × Except ℤ ℤ) : Ns × Except ℤ ℤ :=
  if key = IPC_PRIVATE then getnew
  else match ids.ipcFindkey key with
    | none => if !creat then (s, .error (-ENOENT)) else getnew
    | some p =>
      if creat && excl then (s, .error (-EEXIST))
      else if moreChecks p ≠ 0 then (s, .error (moreChecks p))
      else if e.perms ≠ 0 then (s, .error e.perms)
      else (s, .ok (ids.perm p).id)

/-- `ksys_semget` -/
def ksysSemget (b : Build) (s : Ns) (key nsems : ℤ) (creat excl : Bool) (e : Env) :
    Ns × Except ℤ ℤ :=
  if nsems < 0 ∨ nsems > s.scSemmsl then (s, .error (-EINVAL))
  else s.ipcget s.sem key creat excl (fun p => if nsems > s.nsems p then -EINVAL else 0) e
    (s.newary b key nsems e)

/-- `ksys_shmget` -/
def ksysShmget (b : Build) (s : Ns) (key : ℤ) (size : ℕ) (creat excl : Bool) (e : Env) :
    Ns × Except ℤ ℤ :=
  s.ipcget s.shm key creat excl (fun p => if s.segsz p < size then -EINVAL else 0) e
    (s.newseg b key size e)

end Ns

/-! ## The machine -/

inductive Act where
  | semget (key nsems : ℤ) (creat excl : Bool) (e : Env)
  | shmget (key : ℤ) (size : ℕ) (creat excl : Bool) (e : Env)
  /-- `IPC_RMID` of an array -/
  | freeary (p : ℕ)
  | shmDestroy (p : ℕ)
  /-- `IPC_RMID` of a segment that is attached -/
  | shmKeyPrivate (p : ℕ)
  /-- the limits are set, to whatever their types hold -/
  | limits (semmsl semmns semmni : ℤ) (ctlmax ctlall : ℕ) (ctlmni : ℤ)

def step (b : Build) (s : Ns) : Act → Option Ns
  | .semget key nsems creat excl e => some (s.ksysSemget b key nsems creat excl e).1
  | .shmget key size creat excl e =>
    -- `size` is a `size_t`
    if size < 2 ^ 64 then some (s.ksysShmget b key size creat excl e).1 else none
  | .freeary p => if s.sem.live p then some (s.freeary b p) else none
  | .shmDestroy p => if s.shm.live p then some (s.shmDestroy b p) else none
  | .shmKeyPrivate p =>
    if s.shm.live p then some { s with shm := s.shm.ipcSetKeyPrivate p } else none
  | .limits semmsl semmns semmni ctlmax ctlall ctlmni => some { s with
      scSemmsl := semmsl, scSemmns := semmns, scSemmni := semmni
      shmCtlmax := ctlmax, shmCtlall := ctlall, shmCtlmni := ctlmni }

/-- `newary` is not called for so many semaphores that its limit test overflows. -/
def Fits (s : Ns) : Act → Prop
  | .semget key nsems creat _ _ =>
    (key = IPC_PRIVATE ∨ s.sem.ipcFindkey key = none ∧ creat = true) →
      0 < nsems → nsems ≤ s.scSemmsl → s.usedSems + nsems ≤ INT_MAX
  | _ => True

open IpcIds

variable {b : Build} {s s' : Ns} {act : Act} {key nsems err id : ℤ} {size p : ℕ} {e : Env}

theorem int_eq {x : ℤ} (h0 : 0 ≤ x) (hle : x ≤ INT_MAX) : int x = x := by
  unfold int Int.bmod
  unfold INT_MAX at hle
  rw [Int.emod_eq_of_lt h0 (by omega)]
  exact if_pos (by omega)

/-! ## A creation -/

/-- What other calls see of a namespace has not changed. -/
structure Same (s s' : Ns) : Prop where
  usedSems : s'.usedSems = s.usedSems
  shmTot : s'.shmTot = s.shmTot
  semFind : ∀ i, s'.sem.idr.find i = s.sem.idr.find i
  semKeys : s'.sem.keyHt = s.sem.keyHt
  shmFind : ∀ i, s'.shm.idr.find i = s.shm.idr.find i
  shmKeys : s'.shm.keyHt = s.shm.keyHt

theorem Same.refl (s : Ns) : Same s s := ⟨rfl, rfl, fun _ => rfl, rfl, fun _ => rfl, rfl⟩

theorem find_of_slots {ids ids' : IpcIds} (h : ids'.idr.slots = ids.idr.slots) (i : ℕ) :
    ids'.idr.find i = ids.idr.find i := by
  rw [Idr.find, h]
  rfl

/-- **What `newary` does**: nothing, or an `ipc_addid` that fails, or an array within the
    limit. -/
theorem newary_cases (b : Build) (s : Ns) (key nsems : ℤ) (e : Env) :
    (∃ err, (s.newary b key nsems e).2 = .error err ∧ ((s.newary b key nsems e).1 = s ∨
      ∃ ids, Failed b.limits (s.newSem key nsems).sem ids s.sem.fresh ∧
        (s.newary b key nsems e).1 = { s.newSem key nsems with sem := ids })) ∨
    ∃ id ids idx, (s.newary b key nsems e).2 = .ok id ∧ nsems ≠ 0 ∧
      int (s.usedSems + nsems) ≤ s.scSemmns ∧
      Inserted b.limits (s.newSem key nsems).sem ids s.sem.fresh idx ∧
      (s.newary b key nsems e).1 =
        { s.newSem key nsems with sem := ids, usedSems := int (s.usedSems + nsems) } := by
  rcases hres : s.newary b key nsems e with ⟨s', r⟩
  unfold Ns.newary at hres
  dsimp only
  split at hres
  · cases hres
    exact .inl ⟨_, rfl, .inl rfl⟩
  next hn =>
    split at hres
    · cases hres
      exact .inl ⟨_, rfl, .inl rfl⟩
    next hle =>
      split at hres
      · cases hres
        exact .inl ⟨_, rfl, .inl rfl⟩
      split at hres
      · cases hres
        exact .inl ⟨_, rfl, .inl rfl⟩
      dsimp only at hres
      have hadd := ipcAddid_cases b.limits (s.newSem key nsems).sem s.sem.fresh
        (s.newSem key nsems).scSemmni e.add
      rcases hr : (s.newSem key nsems).sem.ipcAddid b.limits s.sem.fresh
        (s.newSem key nsems).scSemmni e.add with ⟨ids, err | idx⟩
      · rw [hr] at hadd hres
        cases hres
        rcases hadd with ⟨-, -, hf⟩ | ⟨idx, hok, -⟩
        · exact .inl ⟨err, rfl, .inr ⟨ids, hf, rfl⟩⟩
        · cases hok
      · rw [hr] at hadd hres
        cases hres
        rcases hadd with ⟨err, herr, -⟩ | ⟨idx', -, hi⟩
        · cases herr
        · exact .inr ⟨_, ids, idx', rfl, hn, Int.not_lt.1 hle, hi, rfl⟩

/-- The pages of a segment, as they are. -/
def pages (b : Build) (size : ℕ) : ℕ := (size + (2 ^ b.pageShift - 1)) / 2 ^ b.pageShift

theorem ulong_lt (x : ℕ) : ulong x < 2 ^ 64 := Nat.mod_lt _ (by decide)

theorem ulong_eq {x : ℕ} (h : x < 2 ^ 64) : ulong x = x := Nat.mod_eq_of_lt h

/-- A page count that wraps is found out. -/
theorem numpages_eq (hsize : size < 2 ^ 64)
    (h : ¬ulong (Ns.numpages b size * 2 ^ b.pageShift) < size) (hpos : 0 < size) :
    size + (2 ^ b.pageShift - 1) < 2 ^ 64 ∧ Ns.numpages b size = pages b size := by
  have hP : 2 ^ b.pageShift < 2 ^ 64 := Nat.pow_lt_pow_right (by decide) b.pageShift_lt
  have hpos' : 0 < 2 ^ b.pageShift := Nat.two_pow_pos _
  by_cases hlt : size + (2 ^ b.pageShift - 1) < 2 ^ 64
  · exact ⟨hlt, by rw [Ns.numpages, pages, ulong_eq hlt]⟩
  · have hwrap : ulong (size + (2 ^ b.pageShift - 1)) < 2 ^ b.pageShift := by
      unfold ulong
      omega
    rw [Ns.numpages, Nat.div_eq_of_lt hwrap, Nat.zero_mul] at h
    exact absurd hpos h

/-- A total that wraps is found out. -/
theorem shmTot_eq {tot n : ℕ} (htot : tot < 2 ^ 64) (hn : n < 2 ^ 64)
    (h : ¬ulong (tot + n) < tot) : tot + n < 2 ^ 64 := by
  unfold ulong at h
  omega

/-- **What `newseg` does**, in the same way; the page count and the total have not wrapped. -/
theorem newseg_cases (b : Build) (key : ℤ) (e : Env) (htot : s.shmTot < 2 ^ 64)
    (hsize : size < 2 ^ 64) :
    (∃ err, (s.newseg b key size e).2 = .error err ∧ ((s.newseg b key size e).1 = s ∨
      ∃ ids, Failed b.limits (s.newShm key size).shm ids s.shm.fresh ∧
        (s.newseg b key size e).1 = { s.newShm key size with shm := ids })) ∨
    ∃ id ids idx, (s.newseg b key size e).2 = .ok id ∧ Ns.numpages b size = pages b size ∧
      size + (2 ^ b.pageShift - 1) < 2 ^ 64 ∧ s.shmTot + pages b size ≤ s.shmCtlall ∧
      s.shmTot + pages b size < 2 ^ 64 ∧
      Inserted b.limits (s.newShm key size).shm ids s.shm.fresh idx ∧
      (s.newseg b key size e).1 =
        { s.newShm key size with shm := ids, shmTot := s.shmTot + pages b size } := by
  rcases hres : s.newseg b key size e with ⟨s', r⟩
  unfold Ns.newseg at hres
  dsimp only at hres ⊢
  split at hres
  · cases hres
    exact .inl ⟨_, rfl, .inl rfl⟩
  next hmin =>
    split at hres
    · cases hres
      exact .inl ⟨_, rfl, .inl rfl⟩
    next hwrap =>
      split at hres
      · cases hres
        exact .inl ⟨_, rfl, .inl rfl⟩
      next htest =>
        split at hres
        · cases hres
          exact .inl ⟨_, rfl, .inl rfl⟩
        split at hres
        · cases hres
          exact .inl ⟨_, rfl, .inl rfl⟩
        split at hres
        · cases hres
          exact .inl ⟨_, rfl, .inl rfl⟩
        have hpos : 0 < size := by
          unfold SHMMIN at hmin
          omega
        obtain ⟨hlt, hpages⟩ := numpages_eq hsize hwrap hpos
        obtain ⟨hsum, hall⟩ := not_or.1 htest
        have hnum : Ns.numpages b size < 2 ^ 64 :=
          Nat.lt_of_le_of_lt (Nat.div_le_self _ _) (ulong_lt _)
        have hno := shmTot_eq htot hnum hsum
        rw [ulong_eq hno, hpages] at hall
        rw [hpages] at hno
        have htot' : ulong ((s.newShm key size).shmTot + Ns.numpages b size) =
            s.shmTot + pages b size := by
          rw [hpages]
          exact ulong_eq hno
        have hadd := ipcAddid_cases b.limits (s.newShm key size).shm s.shm.fresh
          (s.newShm key size).shmCtlmni e.add
        rcases hr : (s.newShm key size).shm.ipcAddid b.limits s.shm.fresh
          (s.newShm key size).shmCtlmni e.add with ⟨ids, err | idx⟩
        · rw [hr] at hadd hres
          cases hres
          rcases hadd with ⟨-, -, hf⟩ | ⟨idx, hok, -⟩
          · exact .inl ⟨err, rfl, .inr ⟨ids, hf, rfl⟩⟩
          · cases hok
        · rw [hr] at hadd hres
          dsimp only at hres
          rw [htot'] at hres
          cases hres
          rcases hadd with ⟨err, herr, -⟩ | ⟨idx', -, hi⟩
          · cases herr
          · exact .inr ⟨_, ids, idx', rfl, hpages, hlt, Nat.not_lt.1 hall, hno, hi, rfl⟩

theorem newary_error (h : (s.newary b key nsems e).2 = .error err) :
    Same s (s.newary b key nsems e).1 := by
  rcases newary_cases b s key nsems e with ⟨-, -, hs | ⟨ids, hf, hs⟩⟩ | ⟨id, _, _, hok, -⟩
  · rw [hs]
    exact Same.refl s
  · rw [hs]
    exact ⟨rfl, rfl, find_of_slots hf.slots, hf.keyHt, fun _ => rfl, rfl⟩
  · rw [h] at hok
    cases hok

theorem newseg_error (htot : s.shmTot < 2 ^ 64) (hsize : size < 2 ^ 64)
    (h : (s.newseg b key size e).2 = .error err) : Same s (s.newseg b key size e).1 := by
  rcases newseg_cases b key e htot hsize with ⟨-, -, hs | ⟨ids, hf, hs⟩⟩ | ⟨id, _, _, hok, -⟩
  · rw [hs]
    exact Same.refl s
  · rw [hs]
    exact ⟨rfl, rfl, fun _ => rfl, rfl, find_of_slots hf.slots, hf.keyHt⟩
  · rw [h] at hok
    cases hok

/-! ## The sums -/

section
variable {M : Type} [AddCommMonoid M] {l : Limits} {ids ids' : IpcIds} {f : ℕ → M} {tot x : M}
  {idx : ℕ}

/-- What a new object has does not count yet. -/
theorem sumOf_fresh (hs : Stamped l ids) (r : Idr ℕ) (hr : r.slots = ids.idr.slots) :
    r.sumOf (Function.update f ids.fresh x) = ids.idr.sumOf f := by
  refine Idr.sumOf_congr hr fun i p hp => Function.update_of_ne ?_ _ _
  rintro rfl
  exact hs.fresh_free i hp

/-- A counter is the sum of `f` over the objects of the table. -/
structure Counted (l : Limits) (ids : IpcIds) (f : ℕ → M) (tot : M) : Prop where
  stamped : Stamped l ids
  total : tot = ids.idr.sumOf f

theorem Counted.failed (h : Counted l ids f tot)
    (hf : Failed l (ids.newPerm key) ids' ids.fresh) (x : M) :
    Counted l ids' (Function.update f ids.fresh x) tot := by
  refine ⟨(h.stamped.newPerm key).failed hf h.stamped.fresh_free, ?_⟩
  rw [sumOf_fresh h.stamped _ hf.slots]
  exact h.total

theorem Counted.inserted (h : Counted l ids f tot)
    (hi : Inserted l (ids.newPerm key) ids' ids.fresh idx) (x : M) :
    Counted l ids' (Function.update f ids.fresh x) (tot + x) := by
  refine ⟨(h.stamped.newPerm key).inserted hi h.stamped.fresh_free (Nat.lt_succ_self _), ?_⟩
  rw [hi.idr, Idr.sumOf_insert hi.free, Function.update_self,
    sumOf_fresh h.stamped (ids.newPerm key).idr rfl, h.total, add_comm]

theorem Counted.removed (h : Counted l ids f tot) (hp : ids.live p = true) :
    ∃ rest, tot = f p + rest ∧ Counted l (ids.ipcRmid l p) f rest := by
  obtain ⟨i, hi⟩ := live_iff.1 hp
  obtain ⟨-, hlt, -, hid⟩ := h.stamped.found i p hi
  have hr : Removed ids (ids.ipcRmid l p) p i := by
    refine ipcRmid_removed ?_
    rw [hid]
    exact toIdx_mkId hlt
  have hstep : ids.step l (.rmid p) = some (ids.ipcRmid l p) := if_pos hp
  refine ⟨(ids.ipcRmid l p).idr.sumOf f, ?_, step_stamped h.stamped hstep, rfl⟩
  rw [h.total, hr.idr]
  exact Idr.sumOf_remove hi

theorem Counted.setKeyPrivate (h : Counted l ids f tot) (hp : ids.live p = true) :
    Counted l (ids.ipcSetKeyPrivate p) f tot := by
  have hstep : ids.step l (.setKeyPrivate p) = some (ids.ipcSetKeyPrivate p) := if_pos hp
  refine ⟨step_stamped h.stamped hstep, ?_⟩
  rw [h.total]
  unfold ipcSetKeyPrivate ipcKhtRemove
  split
  · rfl
  · rfl

end

/-- The counters are what there is. -/
structure Sound (b : Build) (s : Ns) : Prop where
  sems : Counted b.limits s.sem s.nsems s.usedSems
  segs : Counted b.limits s.shm (Ns.numpages b ∘ s.segsz) s.shmTot
  nonneg : ∀ p, 0 ≤ s.nsems p
  semsLe : s.usedSems ≤ INT_MAX
  segsLt : s.shmTot < 2 ^ 64

theorem sumOf_nonneg {r : Idr ℕ} {f : ℕ → ℤ} (h : ∀ p, 0 ≤ f p) : 0 ≤ r.sumOf f := by
  refine List.sum_nonneg fun x hx => ?_
  obtain ⟨y, -, rfl⟩ := List.mem_map.1 hx
  exact h _

theorem Sound.usedSems_nonneg (h : Sound b s) : 0 ≤ s.usedSems := by
  rw [h.sems.total]
  exact sumOf_nonneg h.nonneg

theorem init_counted {M : Type} [AddCommMonoid M] (l : Limits) (f : ℕ → M) :
    Counted l IpcIds.init f 0 :=
  ⟨run_stamped Relation.ReflTransGen.refl, rfl⟩

theorem init_sound (b : Build) : Sound b Ns.init :=
  ⟨init_counted _ _, init_counted _ _, fun _ => Int.le_refl _, by decide, by decide⟩

theorem update_nonneg {f : ℕ → ℤ} (h : ∀ p, 0 ≤ f p) {x : ℤ} (hx : 0 ≤ x) (q : ℕ) :
    0 ≤ Function.update f p x q := by
  rw [Function.update_apply]
  split
  · exact hx
  · exact h q

theorem Sound.newary (h : Sound b s) (hn : 0 ≤ nsems)
    (hfit : 0 < nsems → s.usedSems + nsems ≤ INT_MAX) :
    Sound b (s.newary b key nsems e).1 := by
  rcases newary_cases b s key nsems e with ⟨-, -, hs | ⟨ids, hf, hs⟩⟩ |
    ⟨id, ids, idx, -, hne, -, hi, hs⟩
  · rw [hs]
    exact h
  · rw [hs]
    exact ⟨h.sems.failed hf nsems, h.segs, update_nonneg h.nonneg hn, h.semsLe, h.segsLt⟩
  · have hle := hfit (by omega)
    have hsum := h.usedSems_nonneg
    rw [hs, int_eq (by omega) hle]
    exact ⟨h.sems.inserted hi nsems, h.segs, update_nonneg h.nonneg hn, hle, h.segsLt⟩

theorem Sound.newseg (h : Sound b s) (hsize : size < 2 ^ 64) :
    Sound b (s.newseg b key size e).1 := by
  have hcomp : Ns.numpages b ∘ (s.newShm key size).segsz =
      Function.update (Ns.numpages b ∘ s.segsz) s.shm.fresh (Ns.numpages b size) :=
    Function.comp_update _ _ _ _
  rcases newseg_cases b key e h.segsLt hsize with ⟨-, -, hs | ⟨ids, hf, hs⟩⟩ |
    ⟨id, ids, idx, -, hpages, -, -, hlt, hi, hs⟩
  · rw [hs]
    exact h
  · rw [hs]
    refine ⟨h.sems, ?_, h.nonneg, h.semsLe, h.segsLt⟩
    show Counted _ _ (Ns.numpages b ∘ (s.newShm key size).segsz) _
    rw [hcomp]
    exact h.segs.failed hf _
  · rw [hs]
    refine ⟨h.sems, ?_, h.nonneg, h.semsLe, hlt⟩
    show Counted _ _ (Ns.numpages b ∘ (s.newShm key size).segsz) _
    rw [hcomp, ← hpages]
    exact h.segs.inserted hi _

theorem Sound.freeary (h : Sound b s) (hp : s.sem.live p = true) : Sound b (s.freeary b p) := by
  obtain ⟨rest, htot, hrest⟩ := h.sems.removed hp
  have hle := h.semsLe
  have hpos := h.nonneg p
  have hrest0 : 0 ≤ rest := by
    rw [hrest.total]
    exact sumOf_nonneg h.nonneg
  have hused : int (s.usedSems - s.nsems p) = rest := by
    rw [show s.usedSems - s.nsems p = rest by omega]
    exact int_eq hrest0 (by omega)
  unfold Ns.freeary
  rw [hused]
  exact ⟨hrest, h.segs, h.nonneg, by show rest ≤ _; omega, h.segsLt⟩

theorem Sound.shmDestroy (h : Sound b s) (hp : s.shm.live p = true) :
    Sound b (s.shmDestroy b p) := by
  obtain ⟨rest, htot, hrest⟩ := h.segs.removed hp
  have hlt := h.segsLt
  have hused : ulong (s.shmTot + (2 ^ 64 - Ns.numpages b (s.segsz p))) = rest := by
    have hle : Ns.numpages b (s.segsz p) + rest < 2 ^ 64 := by
      rw [Function.comp_apply] at htot
      omega
    unfold ulong
    rw [htot, Function.comp_apply]
    omega
  unfold Ns.shmDestroy
  rw [hused]
  exact ⟨h.sems, hrest, h.nonneg, h.semsLe, by show rest < _; omega⟩

/-! ## The machine's steps -/

/-- `ipcget` creates an object or leaves all as it is. -/
theorem ipcget_cases (s : Ns) (ids : IpcIds) (key : ℤ) (creat excl : Bool) (checks : ℕ → ℤ)
    (e : Env) (getnew : Ns × Except ℤ ℤ) :
    (s.ipcget ids key creat excl checks e getnew).1 = s ∨
      (s.ipcget ids key creat excl checks e getnew = getnew ∧
        (key = IPC_PRIVATE ∨ ids.ipcFindkey key = none ∧ creat = true)) := by
  unfold Ns.ipcget
  split
  next hkey => exact .inr ⟨rfl, .inl hkey⟩
  · split
    next hfind =>
      cases creat with
      | false => exact .inl rfl
      | true => exact .inr ⟨rfl, .inr ⟨hfind, rfl⟩⟩
    · split_ifs <;> exact .inl rfl

theorem step_sound (h : Sound b s) (hfit : Fits s act) (hs : step b s act = some s') :
    Sound b s' := by
  cases act with
  | semget key nsems creat excl e =>
    obtain rfl := Option.some.inj hs
    unfold Ns.ksysSemget
    split
    · exact h
    next hlim =>
      obtain ⟨hn, hmsl⟩ := not_or.1 hlim
      rcases ipcget_cases s s.sem key creat excl (fun p => if nsems > s.nsems p then -EINVAL else 0)
        e (s.newary b key nsems e) with hr | ⟨hr, hnew⟩
      · rw [hr]
        exact h
      · rw [hr]
        exact h.newary (Int.not_lt.1 hn) fun hpos => hfit hnew hpos (Int.not_lt.1 hmsl)
  | shmget key size creat excl e =>
    obtain ⟨hsize, rfl⟩ : size < 2 ^ 64 ∧ (s.ksysShmget b key size creat excl e).1 = s' := by
      simpa [step] using hs
    rcases ipcget_cases s s.shm key creat excl (fun p => if s.segsz p < size then -EINVAL else 0)
      e (s.newseg b key size e) with hr | ⟨hr, -⟩
    · rw [Ns.ksysShmget, hr]
      exact h
    · rw [Ns.ksysShmget, hr]
      exact h.newseg hsize
  | freeary p =>
    obtain ⟨hp, rfl⟩ : s.sem.live p = true ∧ s.freeary b p = s' := by simpa [step] using hs
    exact h.freeary hp
  | shmDestroy p =>
    obtain ⟨hp, rfl⟩ : s.shm.live p = true ∧ s.shmDestroy b p = s' := by simpa [step] using hs
    exact h.shmDestroy hp
  | shmKeyPrivate p =>
    obtain ⟨hp, rfl⟩ : s.shm.live p = true ∧ { s with shm := s.shm.ipcSetKeyPrivate p } = s' := by
      simpa [step] using hs
    exact ⟨h.sems, h.segs.setKeyPrivate hp, h.nonneg, h.semsLe, h.segsLt⟩
  | limits semmsl semmns semmni ctlmax ctlall ctlmni =>
    obtain rfl := Option.some.inj hs
    exact ⟨h.sems, h.segs, h.nonneg, h.semsLe, h.segsLt⟩

theorem run_sound (h : RunIf (step b) Fits Ns.init s) : Sound b s :=
  h.inv (init_sound b) fun _ _ _ hi hfit hs => step_sound hi hfit hs

/-- A `semget` that creates an array keeps within the limit, which is tested without overflow. -/
theorem Sound.semget (h : Sound b s) {creat excl : Bool}
    (hfit : Fits s (.semget key nsems creat excl e))
    (hr : (s.ksysSemget b key nsems creat excl e).2 = .ok id) :
    (s.ksysSemget b key nsems creat excl e).1 = s ∨
      ((s.ksysSemget b key nsems creat excl e).1.usedSems = s.usedSems + nsems ∧
        s.usedSems + nsems ≤ s.scSemmns) := by
  unfold Ns.ksysSemget at hr ⊢
  split at hr
  · cases hr
  next hlim =>
    rw [if_neg hlim]
    obtain ⟨hn, hmsl⟩ := not_or.1 hlim
    rcases ipcget_cases s s.sem key creat excl (fun p => if nsems > s.nsems p then -EINVAL else 0)
      e (s.newary b key nsems e) with hs | ⟨hs, hnew⟩
    · exact .inl hs
    rw [hs] at hr ⊢
    rcases newary_cases b s key nsems e with ⟨err, herr, -⟩ | ⟨_, ids, idx, -, hne, hle, -, hs⟩
    · rw [hr] at herr
      cases herr
    · have hused := h.usedSems_nonneg
      rw [int_eq (by omega) (hfit hnew (by omega) (Int.not_lt.1 hmsl))] at hle hs
      rw [hs]
      exact .inr ⟨rfl, hle⟩

theorem Sound.newseg_refused (h : Sound b s) (hsize : size < 2 ^ 64) (key : ℤ) (e : Env)
    (hbad : 2 ^ 64 ≤ size + (2 ^ b.pageShift - 1) ∨ s.shmCtlall < s.shmTot + pages b size) :
    ∃ err, (s.newseg b key size e).2 = .error err := by
  rcases newseg_cases b key e h.segsLt hsize with ⟨err, herr, -⟩ | ⟨_, _, _, -, -, hlt, hall, -⟩
  · exact ⟨err, herr⟩
  · omega

/-- **Quotas.**  As long as the test of `sc_semmns` does not overflow, `used_sems` is the sum
    over the arrays there are and `shm_tot` that over the segments; a `semget` that creates
    an array stays within the limit; a segment whose pages wrap or are too many is refused;
    and a creation that fails leaves the counters, the identifiers and the keys. -/
theorem quotas (h : RunIf (step b) Fits Ns.init s) :
    s.usedSems = s.sem.idr.sumOf s.nsems ∧
    s.shmTot = s.shm.idr.sumOf (Ns.numpages b ∘ s.segsz) ∧
    (∀ key nsems creat excl e id, Fits s (.semget key nsems creat excl e) →
      (s.ksysSemget b key nsems creat excl e).2 = .ok id →
      (s.ksysSemget b key nsems creat excl e).1 = s ∨
        ((s.ksysSemget b key nsems creat excl e).1.usedSems = s.usedSems + nsems ∧
          s.usedSems + nsems ≤ s.scSemmns)) ∧
    (∀ key size e, size < 2 ^ 64 →
      2 ^ 64 ≤ size + (2 ^ b.pageShift - 1) ∨ s.shmCtlall < s.shmTot + pages b size →
      ∃ err, (s.newseg b key size e).2 = .error err) ∧
    (∀ key nsems e err, (s.newary b key nsems e).2 = .error err →
      Same s (s.newary b key nsems e).1) ∧
    (∀ key size e err, size < 2 ^ 64 → (s.newseg b key size e).2 = .error err →
      Same s (s.newseg b key size e).1) := by
  have hs := run_sound h
  refine ⟨hs.sems.total, hs.segs.total, ?_, ?_, ?_, ?_⟩
  · intro key nsems creat excl e id hfit hr
    exact hs.semget hfit hr
  · intro key size e hsize hbad
    exact hs.newseg_refused hsize key e hbad
  · intro key nsems e err herr
    exact newary_error herr
  · intro key size e err hsize herr
    exact newseg_error hs.segsLt hsize herr

def someBuild : Build := ⟨Limits.std, 12, 33554427, by decide⟩

def noErr : Env := ⟨false, 0, 0, 0, ⟨false, 0⟩⟩

instance (s : Ns) : (act : Act) → Decidable (Fits s act)
  | .semget key nsems creat _ _ => inferInstanceAs (Decidable
    ((key = IPC_PRIVATE ∨ s.sem.ipcFindkey key = none ∧ creat = true) →
      0 < nsems → nsems ≤ s.scSemmsl → s.usedSems + nsems ≤ INT_MAX))
  | .shmget .. | .freeary _ | .shmDestroy _ | .shmKeyPrivate _ | .limits .. =>
    inferInstanceAs (Decidable True)

/-- An array of three, a segment of two pages, and the array removed again. -/
theorem quotas_run : ∃ s, RunIf (step someBuild) Fits Ns.init s ∧
    s.usedSems = s.sem.idr.sumOf s.nsems ∧ s.usedSems = 0 ∧ s.shmTot = 2 := by
  obtain ⟨s, hrun, hs⟩ := execIf_check (step someBuild) (fun s act => decide (Fits s act))
    (fun _ _ => of_decide_eq_true) Ns.init
    [.semget 7 3 true false noErr, .shmget 8 5000 true false noErr, .freeary 0]
    (fun s => decide (s.usedSems = 0 ∧ s.shmTot = 2)) (by decide +kernel)
  exact ⟨s, hrun, (quotas hrun).1, of_decide_eq_true hs⟩

/-- The sum overflows in the test of `sc_semmns` and is within the limit: an array of
    `INT_MAX` semaphores comes as far as the allocation. -/
theorem newary_overflows : ∃ s, Run (step someBuild) Ns.init s ∧
    (s.usedSems = 1 ∧ s.scSemmns = INT_MAX ∧ s.scSemmns < s.usedSems + INT_MAX ∧
      int (s.usedSems + INT_MAX) ≤ s.scSemmns ∧
      (s.ksysSemget someBuild IPC_PRIVATE INT_MAX true false noErr).2 = .error (-ENOMEM)) := by
  obtain ⟨s, hrun, hs⟩ := exec_check (step someBuild) Ns.init
    [.limits INT_MAX INT_MAX 32000 1 1 1, .semget IPC_PRIVATE 1 true false noErr]
    (fun s => decide (s.usedSems = 1 ∧ s.scSemmns = INT_MAX ∧ s.scSemmns < s.usedSems + INT_MAX ∧
      int (s.usedSems + INT_MAX) ≤ s.scSemmns ∧
      (s.ksysSemget someBuild IPC_PRIVATE INT_MAX true false noErr).2 = .error (-ENOMEM)))
    (by decide +kernel)
  exact ⟨s, hrun, of_decide_eq_true hs⟩

end DroidLkm.Ids.Quotas
