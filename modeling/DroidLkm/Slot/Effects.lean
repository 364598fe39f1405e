/-
  Namespaces of tasks — what a function leaves alone, and what it makes.

  * `has_…`: reading flags words that have been masked;
  * `Quiet`: no task and no nsproxy is touched; so it is with the counting of
    references and with the making of a namespace;
  * `Added`: an nsproxy is allocated and nothing else happens to tasks and
    proxies; `createEntry_spec` says what it names.
-/
import DroidLkm.Slot.Wf

namespace DroidLkm.Slot

variable {flags m c : Flags}

/-! ## Flags -/

theorem has_masked (h : m &&& c = c) : has (flags &&& m) c = has flags c := by
  rw [has, has, BitVec.and_assoc, h]

theorem not_has_without (h : ~~~m &&& c = 0) : has (without flags m) c = false := by
  simp [has, without, BitVec.and_assoc, h]

theorem has_of_sub (h : m &&& c = c) (hc : has flags c = true) : has flags m = true := by
  rw [has, bne_iff_ne] at hc ⊢
  intro hm
  apply hc
  rw [← h, ← BitVec.and_assoc, hm]
  exact BitVec.zero_and

theorem has_or : has flags (m ||| c) = (has flags m || has flags c) := by
  have hor : flags &&& (m ||| c) = (flags &&& m) ||| (flags &&& c) := by
    ext i
    simp only [BitVec.getElem_and, BitVec.getElem_or]
    cases flags[i] <;> simp
  rw [Bool.eq_iff_iff, Bool.or_eq_true]
  simp only [has, bne_iff_ne, ne_eq, hor]
  rw [← not_and_or]
  simp

theorem without_eq (h : has flags m = false) : without flags m = flags := by
  have h0 : flags &&& m = 0 := by simpa [has] using h
  ext i hi
  have hbit : (flags &&& m)[i] = false := by rw [h0]; exact BitVec.getElem_zero hi
  rw [BitVec.getElem_and] at hbit
  simp only [without, BitVec.getElem_and, BitVec.getElem_not]
  cases hf : flags[i] <;> cases hm : m[i] <;> simp_all

theorem has_ours : has flags OURS = (has flags CLONE_NEWPID || has flags CLONE_NEWIPC) := has_or

theorem without_ours : has (without flags OURS) OURS = false := not_has_without (by decide)

theorem without_pid : has (without flags OURS) CLONE_NEWPID = false := not_has_without (by decide)

/-- Of what the kernel makes an nsproxy for, nothing is left but the flags of
    the other namespaces. -/
theorem without_kernel_ns :
    has (without flags OURS) KERNEL_NS = has (without flags OURS) NS_FLAGS := by
  rw [KERNEL_NS, has_or, without_pid, Bool.or_false]

theorem ours_kernel_ns (h : has flags OURS = true) : has flags KERNEL_NS = true :=
  has_of_sub (by decide) h

theorem has_cloneFlags (h : (0xffffffff &&& ~~~CSIGNAL) &&& c = c) :
    has (Kernel.cloneFlags flags) c = has flags c := by
  rw [Kernel.cloneFlags, without, BitVec.and_assoc, has_masked h]

theorem has_comm (a b : Flags) : has a b = has b a := by
  rw [has, has, BitVec.and_comm]

/-- The kernel is asked for namespaces, and for none that it would refuse. -/
theorem has_legacyFlags (flags : Flags) :
    has (legacyFlags flags) KERNEL_NS = true ∧ has (legacyFlags flags) OURS = false := by
  unfold legacyFlags
  dsimp only
  split
  · rename_i hns
    exact ⟨without_kernel_ns.trans hns, without_ours⟩
  · constructor
    · rw [has_comm, has_or, has_comm KERNEL_NS CLONE_NEWUTS,
        show has CLONE_NEWUTS KERNEL_NS = true from by decide, Bool.or_true]
    · rw [has_comm, has_or, has_comm OURS, without_ours, has_comm OURS,
        show has CLONE_NEWUTS OURS = false from by decide, Bool.or_false]

/-- The namespaces that are new are written over the names that are there. -/
def Nsproxy.withNew (x : Nsproxy) (newPid newIpc : Option ℕ) : Nsproxy :=
  { x with
    pidNsForChildren := newPid.getD x.pidNsForChildren
    ipcNs := newIpc.or x.ipcNs }

namespace Kernel

variable {k k₁ k₂ : Kernel} {t tsk q n : ℕ} {e : Env} {x y : Nsproxy} {newPid newIpc : Option ℕ}

/-! ## Tasks and proxies are left alone -/

structure Quiet (k k' : Kernel) : Prop where
  cfg : k'.cfg = k.cfg
  task : k'.task = k.task
  nsp : k'.nsp = k.nsp
  nextTask : k'.nextTask = k.nextTask
  nextNsp : k'.nextNsp = k.nextNsp
  nextOther : k'.nextOther = k.nextOther
  attached : k'.attached = k.attached

theorem Quiet.refl (k : Kernel) : Quiet k k := ⟨rfl, rfl, rfl, rfl, rfl, rfl, rfl⟩

theorem Quiet.trans (h : Quiet k k₁) (h' : Quiet k₁ k₂) : Quiet k k₂ :=
  ⟨h'.cfg.trans h.cfg, h'.task.trans h.task, h'.nsp.trans h.nsp, h'.nextTask.trans h.nextTask,
    h'.nextNsp.trans h.nextNsp, h'.nextOther.trans h.nextOther, h'.attached.trans h.attached⟩

theorem Quiet.nsproxyOf (h : Quiet k k₁) (t : ℕ) : k₁.nsproxyOf t = k.nsproxyOf t := by
  rw [Kernel.nsproxyOf, Kernel.nsproxyOf, h.task, h.nsp]

theorem ipcnsPut_quiet (k : Kernel) (n : Option ℕ) : Quiet k (k.ipcnsPut n) := by
  cases n with
  | none => exact Quiet.refl k
  | some n =>
    dsimp only [Kernel.ipcnsPut]
    split_ifs <;> exact ⟨rfl, rfl, rfl, rfl, rfl, rfl, rfl⟩

theorem pidnsPut_quiet (k : Kernel) (n : Option ℕ) : Quiet k (k.pidnsPut n) := by
  cases n with
  | none => exact Quiet.refl k
  | some n =>
    dsimp only [Kernel.pidnsPut]
    split_ifs <;> exact ⟨rfl, rfl, rfl, rfl, rfl, rfl, rfl⟩

theorem putNew_quiet (k : Kernel) (newPid newIpc : Option ℕ) : Quiet k (k.putNew newPid newIpc) :=
  (pidnsPut_quiet k newPid).trans (ipcnsPut_quiet _ newIpc)

theorem nsproxyDrop_quiet (k : Kernel) (n : Option ℕ) : Quiet k (k.nsproxyDrop n) := by
  cases n with
  | none => exact Quiet.refl k
  | some n =>
    dsimp only [Kernel.nsproxyDrop]
    split
    · exact ipcnsPut_quiet k _
    · exact Quiet.refl k

theorem nsproxyHold_quiet (k : Kernel) (q : ℕ) : Quiet k (k.nsproxyHold q) := by
  unfold Kernel.nsproxyHold
  split
  · exact Quiet.refl k
  · split
    · exact ⟨rfl, rfl, rfl, rfl, rfl, rfl, rfl⟩
    · exact Quiet.refl k

theorem holdOf_quiet (k : Kernel) (t : ℕ) : Quiet k (k.holdOf t) := by
  unfold Kernel.holdOf
  split
  · exact Quiet.refl k
  · exact nsproxyHold_quiet k _

/-! ## Namespaces are made -/

/-- A pid namespace can be made under that of `tsk`. -/
def canMakePid (k : Kernel) (current tsk : ℕ) (e : Env) : Bool :=
  match k.nsproxyOf tsk with
  | none => false
  | some x =>
    (k.task current).activePidNs == x.pidNsForChildren &&
      (k.pidns x.pidNsForChildren).level + 1 ≤ MAX_PID_NS_LEVEL && e.pidns == 0

/-- The namespaces that are asked for can be made. -/
def canMake (k : Kernel) (flags : Flags) (current tsk : ℕ) (e : Env) : Bool :=
  (!has flags CLONE_NEWPID || k.canMakePid current tsk e) &&
    (!has flags CLONE_NEWIPC || e.ipcns == 0)

/-- The name of a namespace, if it is made. -/
def made (want : Bool) (n : ℕ) : Option ℕ := if want then some n else none

theorem newPidNs_spec (k : Kernel) (want : Bool) (c t : ℕ) (e : Env) :
    Quiet k (k.newPidNs want c t e.pidns).1 ∧
      (k.newPidNs want c t e.pidns).1.nextIpc = k.nextIpc ∧
      match (k.newPidNs want c t e.pidns).2 with
      | .error err => err ≠ 0 ∧ (!want || k.canMakePid c t e) = false
      | .ok newPid => (!want || k.canMakePid c t e) = true ∧ newPid = made want k.nextPid := by
  unfold Kernel.newPidNs canMakePid made
  cases want with
  | false => exact ⟨Quiet.refl k, rfl, rfl, rfl⟩
  | true =>
    simp only [Bool.not_true, Bool.false_eq_true, if_false, Bool.false_or, if_true]
    cases hx : k.nsproxyOf t with
    | none => exact ⟨Quiet.refl k, rfl, by decide, rfl⟩
    | some x =>
      unfold pidnsCreate
      dsimp only
      by_cases ha : (k.task c).activePidNs = x.pidNsForChildren
      · by_cases hl : MAX_PID_NS_LEVEL < (k.pidns x.pidNsForChildren).level + 1
        · rw [if_neg (by simpa using ha), if_pos hl]
          exact ⟨Quiet.refl k, rfl, by decide, by simp [Nat.not_le.2 hl]⟩
        · by_cases he : e.pidns = 0
          · rw [if_neg (by simpa using ha), if_neg hl, if_neg (by simpa using he)]
            refine ⟨⟨rfl, rfl, rfl, rfl, rfl, rfl, rfl⟩, rfl, ?_, rfl⟩
            simp [ha, he, Nat.not_lt.1 hl]
          · rw [if_neg (by simpa using ha), if_neg hl, if_pos he]
            exact ⟨Quiet.refl k, rfl, he, by simp [he]⟩
      · rw [if_pos ha]
        exact ⟨Quiet.refl k, rfl, by decide, by simp [ha]⟩

theorem newIpcNs_spec (k : Kernel) (want : Bool) (err : ℤ) :
    Quiet k (k.newIpcNs want err).1 ∧
      match (k.newIpcNs want err).2 with
      | .error err' => err' ≠ 0 ∧ (!want || err == 0) = false
      | .ok newIpc => (!want || err == 0) = true ∧ newIpc = made want k.nextIpc := by
  unfold Kernel.newIpcNs ipcnsCreate made
  cases want with
  | false => exact ⟨Quiet.refl k, rfl, rfl⟩
  | true =>
    by_cases he : err = 0
    · simp only [he, Bool.not_true, Bool.false_eq_true, if_false, ne_eq, not_true, if_true]
      exact ⟨⟨rfl, rfl, rfl, rfl, rfl, rfl, rfl⟩, rfl, trivial⟩
    · simp only [he, Bool.not_true, Bool.false_eq_true, if_false, ne_eq, not_false_iff, if_true]
      exact ⟨Quiet.refl k, trivial, by simp [he]⟩

/-- Either both are made, and have the next names, or no task and no nsproxy
    has been touched. -/
theorem newNamespaces_spec (k : Kernel) (flags : Flags) (c t : ℕ) (e : Env) :
    Quiet k (k.newNamespaces flags c t e).1 ∧
      match (k.newNamespaces flags c t e).2 with
      | .error err => err ≠ 0 ∧ k.canMake flags c t e = false
      | .ok (newPid, newIpc) => k.canMake flags c t e = true ∧
          newPid = made (has flags CLONE_NEWPID) k.nextPid ∧
          newIpc = made (has flags CLONE_NEWIPC) k.nextIpc := by
  unfold Kernel.newNamespaces canMake
  obtain ⟨hq, hnext, hp⟩ := newPidNs_spec k (has flags CLONE_NEWPID) c t e
  rcases hr : k.newPidNs (has flags CLONE_NEWPID) c t e.pidns with ⟨k₁, err | newPid⟩ <;>
    rw [hr] at hq hnext hp <;> dsimp only at hq hnext hp ⊢
  · exact ⟨hq, hp.1, by rw [hp.2, Bool.false_and]⟩
  · obtain ⟨hq', hi⟩ := newIpcNs_spec k₁ (has flags CLONE_NEWIPC) e.ipcns
    rcases hr' : k₁.newIpcNs (has flags CLONE_NEWIPC) e.ipcns with ⟨k₂, err | newIpc⟩ <;>
      rw [hr'] at hq' hi <;> dsimp only at hq' hi ⊢
    · exact ⟨hq.trans (hq'.trans (pidnsPut_quiet k₂ newPid)), hi.1, by rw [hi.2, Bool.and_false]⟩
    · refine ⟨hq.trans hq', by rw [hp.1, hi.1, Bool.and_true], hp.2, ?_⟩
      rw [← hnext]
      exact hi.2

variable {k' : Kernel} {err err' : ℤ}

theorem newNamespaces_error (h : k.newNamespaces flags t tsk e = (k', .error err)) :
    Quiet k k' ∧ err ≠ 0 ∧ k.canMake flags t tsk e = false := by
  have hs := newNamespaces_spec k flags t tsk e
  rw [h] at hs
  exact hs

theorem newNamespaces_ok (h : k.newNamespaces flags t tsk e = (k', .ok (newPid, newIpc))) :
    Quiet k k' ∧ k.canMake flags t tsk e = true ∧
      newPid = made (has flags CLONE_NEWPID) k.nextPid ∧
      newIpc = made (has flags CLONE_NEWIPC) k.nextIpc := by
  have hs := newNamespaces_spec k flags t tsk e
  rw [h] at hs
  exact hs

/-! ## Proxies are made -/

/-- The kernel refuses the flags of the module, and copies otherwise. -/
theorem createNewNamespaces_eq (hx : k.nsproxyOf t = some x) (hf : has flags OURS = false)
    (err : ℤ) : k.createNewNamespaces flags t err =
      if err ≠ 0 then (k, .error err) else (k.pushNsp (k.copyNsp flags x), .ok k.nextNsp) := by
  simp only [createNewNamespaces, hx, hf, Bool.false_eq_true, if_false]

theorem createNewNamespaces_error
    (h : k.createNewNamespaces flags t err = (k', .error err')) : k' = k ∧ err' ≠ 0 := by
  unfold createNewNamespaces at h
  split at h
  · cases h
    exact ⟨rfl, by decide⟩
  · split_ifs at h with hf he
    · cases h
      exact ⟨rfl, by decide⟩
    · cases h
      exact ⟨rfl, he⟩
    · cases h

theorem createNewNamespaces_ok
    (h : k.createNewNamespaces flags t err = (k', .ok q)) :
    q = k.nextNsp ∧ has flags OURS = false ∧
      ∃ x, k.nsproxyOf t = some x ∧ k' = k.pushNsp (k.copyNsp flags x) := by
  unfold createNewNamespaces at h
  split at h
  · cases h
  next x hx =>
    split_ifs at h with hf he
    · cases h
    · cases h
    · cases h
      exact ⟨rfl, by simpa using hf, x, hx, rfl⟩

/-- An nsproxy is allocated, and nothing else happens to tasks and proxies. -/
structure Added (k k' : Kernel) (x : Nsproxy) : Prop where
  cfg : k'.cfg = k.cfg
  task : k'.task = k.task
  nsp : k'.nsp = Function.update k.nsp k.nextNsp (some x)
  nextTask : k'.nextTask = k.nextTask
  nextNsp : k'.nextNsp = k.nextNsp + 1

theorem added_pushNsp (k : Kernel) (x : Nsproxy) : Added k (k.pushNsp x) x :=
  ⟨rfl, rfl, rfl, rfl, rfl⟩

theorem Added.quiet (h : Added k k₁ x) (h' : Quiet k₁ k₂) : Added k k₂ x :=
  ⟨h'.cfg.trans h.cfg, h'.task.trans h.task, h'.nsp.trans h.nsp, h'.nextTask.trans h.nextTask,
    h'.nextNsp.trans h.nextNsp⟩

theorem Quiet.added (h : Quiet k k₁) (h' : Added k₁ k₂ x) : Added k k₂ x :=
  ⟨h'.cfg.trans h.cfg, h'.task.trans h.task, by rw [h'.nsp, h.nsp, h.nextNsp],
    h'.nextTask.trans h.nextTask, by rw [h'.nextNsp, h.nextNsp]⟩

/-- A write to an nsproxy touches that nsproxy alone. -/
structure Wrote (k k' : Kernel) (q : ℕ) (x : Nsproxy) : Prop where
  cfg : k'.cfg = k.cfg
  task : k'.task = k.task
  nsp : k'.nsp = Function.update k.nsp q (some x)
  nextTask : k'.nextTask = k.nextTask
  nextNsp : k'.nextNsp = k.nextNsp

theorem Wrote.quiet (h : Wrote k k₁ q x) (h' : Quiet k₁ k₂) : Wrote k k₂ q x :=
  ⟨h'.cfg.trans h.cfg, h'.task.trans h.task, h'.nsp.trans h.nsp, h'.nextTask.trans h.nextTask,
    h'.nextNsp.trans h.nextNsp⟩

theorem modifyNsp_wrote (hq : k.nsp q = some x) (f : Nsproxy → Nsproxy) :
    Wrote k (k.modifyNsp q f) q (f x) :=
  ⟨rfl, rfl, by rw [modifyNsp, hq]; rfl, rfl, rfl⟩

theorem Wrote.wrote (h : Wrote k k₁ q x) (h' : Wrote k₁ k₂ q y) : Wrote k k₂ q y :=
  ⟨h'.cfg.trans h.cfg, h'.task.trans h.task, by rw [h'.nsp, h.nsp, Function.update_idem],
    h'.nextTask.trans h.nextTask, h'.nextNsp.trans h.nextNsp⟩

/-- What was just allocated is written. -/
theorem Added.wrote (h : Added k k₁ x) (h' : Wrote k₁ k₂ k.nextNsp y) : Added k k₂ y :=
  ⟨h'.cfg.trans h.cfg, h'.task.trans h.task, by rw [h'.nsp, h.nsp, Function.update_idem],
    h'.nextTask.trans h.nextTask, h'.nextNsp.trans h.nextNsp⟩

theorem attach_wrote (hq : k.nsp q = some x) (newPid newIpc : Option ℕ) :
    Wrote k (k.attach q newPid newIpc) q (x.withNew newPid newIpc) := by
  have hpid : Wrote k (k.attachPidNs q newPid) q (x.withNew newPid none) := by
    cases newPid with
    | none => exact ⟨rfl, rfl, (Function.update_eq_self_iff.2 hq.symm).symm, rfl, rfl⟩
    | some n =>
      have hw := modifyNsp_wrote hq fun x => { x with pidNsForChildren := n }
      exact ⟨hw.cfg, hw.task, hw.nsp, hw.nextTask, hw.nextNsp⟩
  cases newIpc with
  | none => exact hpid
  | some n =>
    have hq₁ : (k.attachPidNs q newPid).nsp q = some (x.withNew newPid none) := by
      rw [hpid.nsp, Function.update_self]
    have hw := modifyNsp_wrote hq₁ fun x => { x with ipcNs := some n }
    exact hpid.wrote ⟨hw.cfg, hw.task, hw.nsp, hw.nextTask, hw.nextNsp⟩

/-- What `create_new_namespaces` makes of an nsproxy, with the wrap in front of
    it or not. -/
def newNsp (k : Kernel) (flags : Flags) (x : Nsproxy) : Nsproxy :=
  (k.copyNsp (without flags OURS) x).withNew (made (has flags CLONE_NEWPID) k.nextPid)
    (made (has flags CLONE_NEWIPC) k.nextIpc)

/-- Without the flags of the module, it is the kernel's copy. -/
theorem newNsp_eq (hf : has flags OURS = false) (x : Nsproxy) :
    k.newNsp flags x = k.copyNsp flags x := by
  have h := hf
  rw [has_ours, Bool.or_eq_false_iff] at h
  simp [newNsp, Nsproxy.withNew, made, h, without_eq hf]

theorem copyNsp_congr (h : k₁.nextOther = k.nextOther) (flags : Flags) (x : Nsproxy) :
    k₁.copyNsp flags x = k.copyNsp flags x := by
  rw [copyNsp, copyNsp, h]

theorem cnnWrap_error (h : k.cnnWrap flags t tsk e = (k', .error err)) :
    Quiet k k' ∧ err ≠ 0 := by
  unfold cnnWrap at h
  split at h
  · rcases hr : k.createNewNamespaces flags tsk e.cnn with ⟨k₁, err₁ | q⟩ <;> rw [hr] at h <;>
      cases h
    obtain ⟨rfl, herr⟩ := createNewNamespaces_error hr
    exact ⟨Quiet.refl _, herr⟩
  · rcases hn : k.newNamespaces flags t tsk e with ⟨k₁, err₁ | ⟨newPid, newIpc⟩⟩ <;>
      rw [hn] at h <;> dsimp only at h
    · cases h
      exact ⟨(newNamespaces_error hn).1, (newNamespaces_error hn).2.1⟩
    · rcases hr : k₁.createNewNamespaces (without flags OURS) tsk e.cnn with ⟨k₂, err₂ | q⟩ <;>
        rw [hr] at h <;> cases h
      obtain ⟨rfl, herr⟩ := createNewNamespaces_error hr
      exact ⟨(newNamespaces_ok hn).1.trans (putNew_quiet _ newPid newIpc), herr⟩

theorem cnnWrap_ok (h : k.cnnWrap flags t tsk e = (k', .ok q)) :
    ∃ x, k.nsproxyOf tsk = some x ∧ q = k.nextNsp ∧ Added k k' (k.newNsp flags x) := by
  unfold cnnWrap at h
  split at h
  · rcases hr : k.createNewNamespaces flags tsk e.cnn with ⟨k₁, err₁ | q₁⟩ <;> rw [hr] at h <;>
      cases h
    obtain ⟨rfl, hf, x, hx, rfl⟩ := createNewNamespaces_ok hr
    refine ⟨x, hx, rfl, ?_⟩
    rw [newNsp_eq hf]
    exact (added_pushNsp k _).quiet (nsproxyHold_quiet _ _)
  · rcases hn : k.newNamespaces flags t tsk e with ⟨k₁, err₁ | ⟨newPid, newIpc⟩⟩ <;>
      rw [hn] at h <;> dsimp only at h
    · cases h
    · obtain ⟨hq, -, rfl, rfl⟩ := newNamespaces_ok hn
      rcases hr : k₁.createNewNamespaces (without flags OURS) tsk e.cnn with ⟨k₂, err₂ | q₂⟩ <;>
        rw [hr] at h <;> cases h
      obtain ⟨rfl, -, x, hx, rfl⟩ := createNewNamespaces_ok hr
      refine ⟨x, by rw [← hq.nsproxyOf]; exact hx, hq.nextNsp, ?_⟩
      have ha := added_pushNsp k₁ (k₁.copyNsp (without flags OURS) x)
      have hself : (k₁.pushNsp (k₁.copyNsp (without flags OURS) x)).nsp k₁.nextNsp =
          some (k.copyNsp (without flags OURS) x) := by
        rw [ha.nsp, Function.update_self, copyNsp_congr hq.nextOther]
      have hw := hq.added (ha.wrote (attach_wrote hself (made (has flags CLONE_NEWPID) k.nextPid)
        (made (has flags CLONE_NEWIPC) k.nextIpc)))
      split
      · exact hw
      · exact hw.quiet (nsproxyHold_quiet _ _)

/-- With the wrap in front or not, a failed `create_new_namespaces` leaves the
    tasks and the proxies alone. -/
theorem createEntry_error (h : k.createEntry flags t tsk e = (k', .error err)) :
    Quiet k k' ∧ err ≠ 0 := by
  unfold createEntry at h
  split at h
  · exact cnnWrap_error h
  · obtain ⟨rfl, herr⟩ := createNewNamespaces_error h
    exact ⟨Quiet.refl _, herr⟩

/-- And one that succeeds adds an nsproxy that names what is new of what is
    asked for, and what `tsk` names of the rest. -/
theorem createEntry_ok (h : k.createEntry flags t tsk e = (k', .ok q)) :
    ∃ x, k.nsproxyOf tsk = some x ∧ q = k.nextNsp ∧ Added k k' (k.newNsp flags x) := by
  unfold createEntry at h
  split at h
  · exact cnnWrap_ok h
  · obtain ⟨rfl, hf, x, hx, rfl⟩ := createNewNamespaces_ok h
    exact ⟨x, hx, rfl, by rw [newNsp_eq hf]; exact added_pushNsp k _⟩

end Kernel

end DroidLkm.Slot
