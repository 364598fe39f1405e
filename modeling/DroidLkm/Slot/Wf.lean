/-
  Namespaces of tasks — names that are in use.

  * `Wf`: every name that a task, an nsproxy or a handle holds has been given
    out, and those to be given out next are new;
  * `Grows`: a call leaves a state with that property and takes no name back;
    one lemma for each function.
-/
import Mathlib.Tactic.SplitIfs
import DroidLkm.Slot.Calls

namespace DroidLkm.Slot.Kernel

/-- An nsproxy is in use and names what has been given out. -/
def NspOk (k : Kernel) (x : Nsproxy) : Prop :=
  0 < x.count ∧ x.pidNsForChildren < k.nextPid ∧ ∀ n, x.ipcNs = some n → n < k.nextIpc

structure Wf (k : Kernel) : Prop where
  task : ∀ t q, (k.task t).nsproxy = some q → t < k.nextTask ∧ q < k.nextNsp
  nsp : ∀ q x, k.nsp q = some x → q < k.nextNsp ∧ NspOk k x
  handle : ∀ n ∈ k.handles, n < k.nextIpc
  host : 0 < k.nextIpc ∧ 0 < k.nextPid

/-- From a good state to a good state, with no name taken back. -/
structure Grows (k k' : Kernel) : Prop where
  wf : Wf k'
  task : k.nextTask ≤ k'.nextTask
  nsp : k.nextNsp ≤ k'.nextNsp
  ipc : k.nextIpc ≤ k'.nextIpc
  pid : k.nextPid ≤ k'.nextPid
  cfg : k'.cfg = k.cfg

variable {k k₁ k₂ : Kernel} {t p q n : ℕ} {new : Option ℕ} {flags : Flags} {e : Env} {err : ℤ}
  {x : Nsproxy} {newPid newIpc : Option ℕ}

theorem Wf.refl (h : Wf k) : Grows k k :=
  ⟨h, Nat.le_refl _, Nat.le_refl _, Nat.le_refl _, Nat.le_refl _, rfl⟩

theorem Grows.trans (h : Grows k k₁) (h' : Grows k₁ k₂) : Grows k k₂ :=
  ⟨h'.wf, Nat.le_trans h.task h'.task, Nat.le_trans h.nsp h'.nsp, Nat.le_trans h.ipc h'.ipc,
    Nat.le_trans h.pid h'.pid, h'.cfg.trans h.cfg⟩

/-! ## Single objects -/

theorem nsproxyOf_some (h : k.nsproxyOf t = some x) :
    ∃ q, (k.task t).nsproxy = some q ∧ k.nsp q = some x :=
  Option.bind_eq_some_iff.1 h

/-- What a task names has been given out. -/
theorem Wf.names (h : Wf k) (hx : k.nsproxyOf t = some x) :
    t < k.nextTask ∧ NspOk k x := by
  obtain ⟨q, ht, hq⟩ := nsproxyOf_some hx
  exact ⟨(h.task t q ht).1, (h.nsp q x hq).2⟩

/-- Counters of references do not matter. -/
theorem Wf.setIpcns (h : Wf k) (f : ℕ → IpcNs) : Grows k { k with ipcns := f } :=
  ⟨⟨h.task, h.nsp, h.handle, h.host⟩, Nat.le_refl _, Nat.le_refl _, Nat.le_refl _,
    Nat.le_refl _, rfl⟩

theorem Wf.setPidns (h : Wf k) (f : ℕ → PidNs) : Grows k { k with pidns := f } :=
  ⟨⟨h.task, h.nsp, h.handle, h.host⟩, Nat.le_refl _, Nat.le_refl _, Nat.le_refl _,
    Nat.le_refl _, rfl⟩

theorem Wf.ipcnsPut (h : Wf k) (n : Option ℕ) : Grows k (k.ipcnsPut n) := by
  cases n with
  | none => exact h.refl
  | some n =>
    dsimp only [Kernel.ipcnsPut]
    split_ifs
    · exact h.setIpcns _
    · exact h.setIpcns _
    · exact h.setIpcns _

theorem Wf.pidnsPut (h : Wf k) (n : Option ℕ) : Grows k (k.pidnsPut n) := by
  cases n with
  | none => exact h.refl
  | some n =>
    dsimp only [Kernel.pidnsPut]
    split_ifs
    · exact h.refl
    · exact h.setPidns _

theorem Wf.putNew (h : Wf k) : Grows k (k.putNew newPid newIpc) :=
  (h.pidnsPut newPid).trans ((h.pidnsPut newPid).wf.ipcnsPut newIpc)

theorem Wf.nsproxyDrop (h : Wf k) (n : Option ℕ) : Grows k (k.nsproxyDrop n) := by
  cases n with
  | none => exact h.refl
  | some n =>
    dsimp only [Kernel.nsproxyDrop]
    split
    · exact h.ipcnsPut _
    · exact h.refl

theorem Wf.nsproxyHold (h : Wf k) (q : ℕ) : Grows k (k.nsproxyHold q) := by
  unfold Kernel.nsproxyHold
  split
  · exact h.refl
  · split
    · exact h.setIpcns _
    · exact h.refl

theorem Wf.holdOf (h : Wf k) (t : ℕ) : Grows k (k.holdOf t) := by
  unfold Kernel.holdOf
  split
  · exact h.refl
  · exact h.nsproxyHold _

/-- A slot of the table of proxies is written. -/
theorem Wf.setNsp (h : Wf k) {y : Option Nsproxy}
    (hy : ∀ x, y = some x → q < k.nextNsp ∧ NspOk k x) :
    Grows k { k with nsp := Function.update k.nsp q y } := by
  refine ⟨⟨h.task, ?_, h.handle, h.host⟩, Nat.le_refl _, Nat.le_refl _, Nat.le_refl _,
    Nat.le_refl _, rfl⟩
  intro q' x hx
  by_cases hq : q' = q
  · subst hq
    exact hy x (by simpa using hx)
  · exact h.nsp q' x (by simpa [hq] using hx)

theorem Wf.modifyNsp (h : Wf k) {f : Nsproxy → Nsproxy}
    (hf : ∀ x, k.nsp q = some x → NspOk k (f x)) : Grows k (k.modifyNsp q f) := by
  refine h.setNsp ?_
  intro y hy
  obtain ⟨x, hx, rfl⟩ := Option.map_eq_some_iff.1 hy
  exact ⟨(h.nsp q x hx).1, hf x hx⟩

theorem Wf.setPidNs (h : Wf k) (hn : n < k.nextPid) : Grows k (k.setPidNs q n) := by
  refine h.modifyNsp ?_
  intro x hx
  obtain ⟨-, h1, -, h3⟩ := h.nsp q x hx
  exact ⟨h1, hn, h3⟩

theorem Wf.setIpcNs (h : Wf k) (hn : ∀ n, new = some n → n < k.nextIpc) :
    Grows k (k.setIpcNs q new) := by
  refine h.modifyNsp ?_
  intro x hx
  obtain ⟨-, h1, h2, -⟩ := h.nsp q x hx
  exact ⟨h1, h2, hn⟩

theorem Wf.putNsproxy (h : Wf k) (q : ℕ) : Grows k (k.putNsproxy q) := by
  refine h.setNsp ?_
  intro y hy
  obtain ⟨x, hx, hy⟩ := Option.bind_eq_some_iff.1 hy
  obtain ⟨h0, h1, h2⟩ := h.nsp q x hx
  split at hy
  · cases hy
  next hc =>
    obtain rfl := Option.some.inj hy
    exact ⟨h0, by simp only; omega, h2⟩

theorem Wf.setTask (h : Wf k) (hq : ∀ q, new = some q → t < k.nextTask ∧ q < k.nextNsp) :
    Grows k (k.setTask t new) := by
  refine ⟨⟨?_, h.nsp, h.handle, h.host⟩, Nat.le_refl _, Nat.le_refl _, Nat.le_refl _,
    Nat.le_refl _, rfl⟩
  intro t' q' ht
  by_cases he : t' = t
  · subst he
    exact hq q' (by simpa [Kernel.setTask] using ht)
  · exact h.task t' q' (by simpa [Kernel.setTask, he] using ht)

theorem Wf.switchTask (h : Wf k) (hq : ∀ q, new = some q → t < k.nextTask ∧ q < k.nextNsp) :
    Grows k (k.switchTask t new) := by
  unfold Kernel.switchTask
  split
  · exact h.setTask hq
  · exact (h.setTask hq).trans ((h.setTask hq).wf.putNsproxy _)

/-! ## Switching -/

theorem Wf.switchRun (h : Wf k) (hq : ∀ q, new = some q → t < k.nextTask ∧ q < k.nextNsp) :
    Grows k (k.nsproxySwitchRun t new Kernel.switchTask) := by
  have hs := h.switchTask hq
  unfold nsproxySwitchRun
  dsimp only
  split
  · exact hs.trans (hs.wf.nsproxyDrop _)
  · exact hs

theorem Wf.switchTaskNamespaces (h : Wf k)
    (hq : ∀ q, new = some q → t < k.nextTask ∧ q < k.nextNsp) :
    Grows k (k.switchTaskNamespaces t new) := by
  unfold Kernel.switchTaskNamespaces
  split
  · exact h.switchRun hq
  · exact h.switchTask hq

theorem Wf.exitTaskNamespaces (h : Wf k) (t : ℕ) : Grows k (k.exitTaskNamespaces t) := by
  have hs : Grows k (k.switchTaskNamespaces t none) := h.switchTaskNamespaces (by simp)
  unfold Kernel.exitTaskNamespaces
  split
  · unfold exitNsWrap
    dsimp only
    split
    · exact hs.trans (hs.wf.nsproxyDrop _)
    · exact hs
  · exact hs

theorem Wf.nsproxySwitch (h : Wf k) (hq : ∀ q, new = some q → t < k.nextTask ∧ q < k.nextNsp) :
    Grows k (k.nsproxySwitch t new) := by
  unfold Kernel.nsproxySwitch
  split
  · exact h.switchRun hq
  · exact h.refl

/-! ## Creating -/

/-- What a function that returns the name of an nsproxy does. -/
def Made (k : Kernel) (r : Kernel × Except ℤ ℕ) : Prop :=
  Grows k r.1 ∧ ∀ q, r.2 = .ok q → q < r.1.nextNsp

theorem Wf.createNewNamespaces (h : Wf k) (flags : Flags) (t : ℕ) (err : ℤ) :
    Made k (k.createNewNamespaces flags t err) := by
  unfold Kernel.createNewNamespaces
  split
  · exact ⟨h.refl, by simp⟩
  next old hold =>
    split
    · exact ⟨h.refl, by simp⟩
    split
    · exact ⟨h.refl, by simp⟩
    · refine ⟨⟨⟨?_, ?_, h.handle, h.host⟩, Nat.le_refl _, Nat.le_succ _, Nat.le_refl _,
        Nat.le_refl _, rfl⟩, ?_⟩
      · intro t' q' ht
        exact ⟨(h.task t' q' ht).1, Nat.lt_succ_of_lt (h.task t' q' ht).2⟩
      · intro q' x hx
        by_cases he : q' = k.nextNsp
        · subst he
          obtain rfl : k.copyNsp flags old = x := by simpa [pushNsp] using hx
          exact ⟨Nat.lt_succ_self _, Nat.one_pos, (h.names hold).2.2⟩
        · obtain ⟨h1, h2⟩ := h.nsp q' x (by simpa [pushNsp, he] using hx)
          exact ⟨Nat.lt_succ_of_lt h1, h2⟩
      · intro q' hq
        obtain rfl : k.nextNsp = q' := by simpa using hq
        exact Nat.lt_succ_self _

theorem Wf.ipcnsCreate (h : Wf k) (err : ℤ) : Grows k (k.ipcnsCreate err).1 ∧
    ∀ n, (k.ipcnsCreate err).2 = .ok n → n < (k.ipcnsCreate err).1.nextIpc := by
  unfold Kernel.ipcnsCreate
  split
  · exact ⟨h.refl, by simp⟩
  · refine ⟨⟨⟨h.task, ?_, ?_, Nat.succ_pos _, h.host.2⟩, Nat.le_refl _, Nat.le_refl _,
      Nat.le_succ _, Nat.le_refl _, rfl⟩, ?_⟩
    · intro q x hx
      obtain ⟨h0, h1, h2, h3⟩ := h.nsp q x hx
      exact ⟨h0, h1, h2, fun n hn => Nat.lt_succ_of_lt (h3 n hn)⟩
    · intro n hn
      exact Nat.lt_succ_of_lt (h.handle n hn)
    · intro n hn
      obtain rfl : k.nextIpc = n := by simpa using hn
      exact Nat.lt_succ_self _

theorem Wf.pidnsCreate (h : Wf k) (p : ℕ) (err : ℤ) : Grows k (k.pidnsCreate p err).1 ∧
    ∀ n, (k.pidnsCreate p err).2 = .ok n → n < (k.pidnsCreate p err).1.nextPid := by
  unfold Kernel.pidnsCreate
  dsimp only
  split_ifs
  · exact ⟨h.refl, by simp⟩
  · exact ⟨h.refl, by simp⟩
  · refine ⟨⟨⟨h.task, ?_, h.handle, h.host.1, Nat.succ_pos _⟩, Nat.le_refl _, Nat.le_refl _,
      Nat.le_refl _, Nat.le_succ _, rfl⟩, ?_⟩
    · intro q x hx
      obtain ⟨h0, h1, h2, h3⟩ := h.nsp q x hx
      exact ⟨h0, h1, Nat.lt_succ_of_lt h2, h3⟩
    · intro n hn
      obtain rfl : k.nextPid = n := by simpa using hn
      exact Nat.lt_succ_self _

/-- Names of new namespaces have been given out. -/
def Given (k : Kernel) (newPid newIpc : Option ℕ) : Prop :=
  (∀ n, newPid = some n → n < k.nextPid) ∧ ∀ n, newIpc = some n → n < k.nextIpc

theorem Given.grows (h : Given k newPid newIpc) (hg : Grows k k₁) : Given k₁ newPid newIpc :=
  ⟨fun n hn => Nat.lt_of_lt_of_le (h.1 n hn) hg.pid,
    fun n hn => Nat.lt_of_lt_of_le (h.2 n hn) hg.ipc⟩

theorem Wf.newPidNs (h : Wf k) (want : Bool) (c t : ℕ) (err : ℤ) :
    Grows k (k.newPidNs want c t err).1 ∧
      ∀ newPid, (k.newPidNs want c t err).2 = .ok newPid →
        Given (k.newPidNs want c t err).1 newPid none := by
  unfold Kernel.newPidNs Given
  split
  · exact ⟨h.refl, by simp⟩
  split
  · exact ⟨h.refl, by simp⟩
  next nsproxy _ =>
    dsimp only
    split
    · exact ⟨h.refl, by simp⟩
    · have hp := h.pidnsCreate nsproxy.pidNsForChildren err
      rcases hr : k.pidnsCreate nsproxy.pidNsForChildren err with ⟨k₁, err | n⟩ <;> rw [hr] at hp
      · exact ⟨hp.1, by simp⟩
      · exact ⟨hp.1, by simpa using hp.2⟩

theorem Wf.newIpcNs (h : Wf k) (want : Bool) (err : ℤ) :
    Grows k (k.newIpcNs want err).1 ∧
      ∀ newIpc, (k.newIpcNs want err).2 = .ok newIpc →
        Given (k.newIpcNs want err).1 none newIpc := by
  unfold Kernel.newIpcNs Given
  split
  · exact ⟨h.refl, by simp⟩
  · have hp := h.ipcnsCreate err
    rcases hr : k.ipcnsCreate err with ⟨k₁, err | n⟩ <;> rw [hr] at hp
    · exact ⟨hp.1, by simp⟩
    · exact ⟨hp.1, by simpa using hp.2⟩

theorem Wf.newNamespaces (h : Wf k) (flags : Flags) (c t : ℕ) (e : Env) :
    Grows k (k.newNamespaces flags c t e).1 ∧
      ∀ newPid newIpc, (k.newNamespaces flags c t e).2 = .ok (newPid, newIpc) →
        Given (k.newNamespaces flags c t e).1 newPid newIpc := by
  unfold Kernel.newNamespaces
  have hp := h.newPidNs (has flags CLONE_NEWPID) c t e.pidns
  rcases hr : k.newPidNs (has flags CLONE_NEWPID) c t e.pidns with ⟨k₁, err | newPid⟩ <;>
    rw [hr] at hp <;> dsimp only at hp ⊢
  · exact ⟨hp.1, by simp⟩
  · have hi := hp.1.wf.newIpcNs (has flags CLONE_NEWIPC) e.ipcns
    rcases hr' : k₁.newIpcNs (has flags CLONE_NEWIPC) e.ipcns with ⟨k₂, err | newIpc⟩ <;>
      rw [hr'] at hi <;> dsimp only at hi ⊢
    · exact ⟨hp.1.trans (hi.1.trans (hi.1.wf.pidnsPut _)), by simp⟩
    · refine ⟨hp.1.trans hi.1, ?_⟩
      intro newPid' newIpc' heq
      obtain ⟨rfl, rfl⟩ : newPid = newPid' ∧ newIpc = newIpc' := by simpa using heq
      exact ⟨((hp.2 newPid rfl).grows hi.1).1, (hi.2 newIpc rfl).2⟩

/-- The record of what was written does not matter. -/
theorem Wf.setAttached (h : Wf k) (l : List ℕ) : Grows k { k with attached := l } :=
  ⟨⟨h.task, h.nsp, h.handle, h.host⟩, Nat.le_refl _, Nat.le_refl _, Nat.le_refl _,
    Nat.le_refl _, rfl⟩

theorem Wf.attachPidNs (h : Wf k) (hn : ∀ n, newPid = some n → n < k.nextPid) :
    Grows k (k.attachPidNs q newPid) := by
  cases newPid with
  | none => exact h.refl
  | some n =>
    have hs := h.setPidNs (q := q) (hn n rfl)
    exact hs.trans (hs.wf.setAttached _)

theorem Wf.attachIpcNs (h : Wf k) (hn : ∀ n, newIpc = some n → n < k.nextIpc) :
    Grows k (k.attachIpcNs q newIpc) := by
  cases newIpc with
  | none => exact h.refl
  | some n =>
    have hs := h.setIpcNs (q := q) hn
    exact hs.trans (hs.wf.setAttached _)

theorem Wf.attach (h : Wf k) (hn : Given k newPid newIpc) :
    Grows k (k.attach q newPid newIpc) := by
  have hpid := h.attachPidNs (q := q) hn.1
  exact hpid.trans (hpid.wf.attachIpcNs (hn.grows hpid).2)

theorem Wf.cnnWrap (h : Wf k) (flags : Flags) (c t : ℕ) (e : Env) :
    Made k (k.cnnWrap flags c t e) := by
  unfold Kernel.cnnWrap
  split
  · have hc := h.createNewNamespaces flags t e.cnn
    rcases hr : k.createNewNamespaces flags t e.cnn with ⟨k₁, err | q⟩ <;> rw [hr] at hc <;>
      dsimp only
    · exact ⟨hc.1, by simp⟩
    · have hh := hc.1.wf.nsproxyHold q
      refine ⟨hc.1.trans hh, ?_⟩
      rintro q' ⟨⟩
      exact Nat.lt_of_lt_of_le (hc.2 q rfl) hh.nsp
  · have hn := h.newNamespaces flags c t e
    rcases hr : k.newNamespaces flags c t e with ⟨k₁, err | ⟨newPid, newIpc⟩⟩ <;> rw [hr] at hn <;>
      dsimp only
    · exact ⟨hn.1, by simp⟩
    · have hc := hn.1.wf.createNewNamespaces (without flags OURS) t e.cnn
      have hgiven := hn.2 newPid newIpc rfl
      rcases hr' : k₁.createNewNamespaces (without flags OURS) t e.cnn with ⟨k₂, err | q⟩ <;>
        rw [hr'] at hc <;> dsimp only
      · exact ⟨hn.1.trans (hc.1.trans hc.1.wf.putNew), by simp⟩
      · have ha := hc.1.wf.attach (q := q) (hgiven.grows hc.1)
        have hfin : Grows k₂ (if newIpc.isSome then k₂.attach q newPid newIpc
            else (k₂.attach q newPid newIpc).nsproxyHold q) := by
          split
          · exact ha
          · exact ha.trans (ha.wf.nsproxyHold q)
        refine ⟨hn.1.trans (hc.1.trans hfin), ?_⟩
        rintro q' ⟨⟩
        exact Nat.lt_of_lt_of_le (hc.2 q rfl) hfin.nsp

theorem Wf.createEntry (h : Wf k) (flags : Flags) (c t : ℕ) (e : Env) :
    Made k (k.createEntry flags c t e) := by
  unfold Kernel.createEntry
  split
  · exact h.cnnWrap flags c t e
  · exact h.createNewNamespaces flags t e.cnn

/-! ## Children -/

theorem Wf.copyNamespaces (h : Wf k) (flags : Flags) (c : ℕ) (ht : t < k.nextTask) (e : Env) :
    Grows k (k.copyNamespaces flags c t e).1 := by
  unfold Kernel.copyNamespaces
  split
  · split
    · exact h.refl
    · exact h.modifyNsp fun x hx => ⟨Nat.succ_pos _, (h.nsp _ x hx).2.2⟩
  split
  · exact h.refl
  split
  · exact h.refl
  · have hc := h.createEntry flags c t e
    rcases hr : k.createEntry flags c t e with ⟨k₁, err | q⟩ <;> rw [hr] at hc <;> dsimp only
    · exact hc.1
    · refine hc.1.trans (hc.1.wf.setTask ?_)
      rintro q' ⟨⟩
      exact ⟨Nat.lt_of_lt_of_le ht hc.1.task, hc.2 q rfl⟩

theorem Wf.cnPriv (h : Wf k) (inner : Flags) (ht : t < k.nextTask) (newPid newIpc : Option ℕ)
    (e : Env) : Grows k (k.cnPriv inner t newPid newIpc e).1 := by
  unfold Kernel.cnPriv
  split
  · exact h.refl
  split
  · exact h.refl
  · have hm := h.createNewNamespaces 0 t e.cnnPriv
    rcases hr : k.createNewNamespaces 0 t e.cnnPriv with ⟨k₁, err | q⟩ <;> rw [hr] at hm <;>
      dsimp only
    · exact hm.1.trans hm.1.wf.putNew
    · refine hm.1.trans (hm.1.wf.switchTaskNamespaces ?_)
      rintro q' ⟨⟩
      exact ⟨Nat.lt_of_lt_of_le ht hm.1.task, hm.2 q rfl⟩

theorem Wf.cnAttach (h : Wf k) (hn : Given k newPid newIpc) (t : ℕ) :
    Grows k (k.cnAttach t newPid newIpc) := by
  unfold Kernel.cnAttach
  split
  · exact h.refl
  next q _ =>
    have ha := h.attach (q := q) hn
    dsimp only
    split
    · exact ha
    · exact ha.trans (ha.wf.nsproxyHold q)

theorem Wf.cnWrap (h : Wf k) (flags : Flags) (c : ℕ) (ht : t < k.nextTask) (e : Env) :
    Grows k (k.cnWrap flags c t e).1 := by
  have hc := h.copyNamespaces flags c ht e
  have hheld : Grows k (if (k.copyNamespaces flags c t e).2 = 0
      then (k.copyNamespaces flags c t e).1.holdOf t else (k.copyNamespaces flags c t e).1) := by
    split
    · exact hc.trans (hc.wf.holdOf t)
    · exact hc
  unfold Kernel.cnWrap
  dsimp only
  split
  · exact hheld
  split
  · exact hc
  split
  · exact hheld
  split
  · exact hc
  · have hn := h.newNamespaces flags c t e
    rcases hr : k.newNamespaces flags c t e with ⟨k₁, err | ⟨newPid, newIpc⟩⟩ <;> rw [hr] at hn <;>
      dsimp only
    · exact hn.1
    · have ht₁ := Nat.lt_of_lt_of_le ht hn.1.task
      have hc := hn.1.wf.copyNamespaces (without flags OURS) c ht₁ e
      have hg := hn.1.trans hc
      split
      · exact hg.trans hc.wf.putNew
      · have hp := hc.wf.cnPriv (without flags OURS) (Nat.lt_of_lt_of_le ht₁ hc.task) newPid
          newIpc e
        split
        · exact hg.trans hp
        · exact (hg.trans hp).trans
            (hp.wf.cnAttach (((hn.2 newPid newIpc rfl).grows hc).grows hp) t)

theorem Wf.copyEntry (h : Wf k) (flags : Flags) (c : ℕ) (ht : t < k.nextTask) (e : Env) :
    Grows k (k.copyEntry flags c t e).1 := by
  unfold Kernel.copyEntry
  split
  · exact h.cnWrap flags c ht e
  · exact h.copyNamespaces flags c ht e

/-- A new task that has what another has. -/
theorem Wf.newTask (h : Wf k) (x : Task)
    (hx : ∀ q, x.nsproxy = some q → q < k.nextNsp) :
    Grows k { k with task := Function.update k.task k.nextTask x, nextTask := k.nextTask + 1 } := by
  refine ⟨⟨?_, h.nsp, h.handle, h.host⟩, Nat.le_succ _, Nat.le_refl _, Nat.le_refl _,
    Nat.le_refl _, rfl⟩
  intro t' q ht
  by_cases he : t' = k.nextTask
  · subst he
    exact ⟨Nat.lt_succ_self _, hx q (by simpa using ht)⟩
  · obtain ⟨h1, h2⟩ := h.task t' q (by simpa [he] using ht)
    exact ⟨Nat.lt_succ_of_lt h1, h2⟩

/-- Where a task stands in the pid namespaces does not matter. -/
theorem Wf.setActive (h : Wf k) (t n : ℕ) :
    Grows k { k with task := Function.update k.task t { k.task t with activePidNs := n } } := by
  refine ⟨⟨?_, h.nsp, h.handle, h.host⟩, Nat.le_refl _, Nat.le_refl _, Nat.le_refl _,
    Nat.le_refl _, rfl⟩
  intro t' q ht
  by_cases he : t' = t
  · subst he
    exact h.task t' q (by simpa using ht)
  · exact h.task t' q (by simpa [he] using ht)

theorem Wf.kernelClone (h : Wf k) (flags : Flags) (t : ℕ) (e : Env) :
    Grows k (k.kernelClone flags t e).1 := by
  unfold Kernel.kernelClone
  split
  · exact h.refl
  · have hn := h.newTask (k.task t) fun q hq => (h.task t q hq).2
    refine hn.trans ?_
    have hc := hn.wf.copyEntry flags t (Nat.lt_succ_self _) e
    dsimp only
    split
    · exact hc.trans (hc.wf.setTask (by simp))
    split
    · exact hc.trans (hc.wf.exitTaskNamespaces _)
    · exact hc.trans (hc.wf.setActive _ _)

/-! ## `clone` and `clone3` -/

theorem Wf.cloneCtxEnter (h : Wf k) (flags : Flags) (ht : t < k.nextTask) (e : Env) :
    Grows k (k.cloneCtxEnter flags t e).1 ∧
      ∀ ctx, (k.cloneCtxEnter flags t e).2 = .ok ctx →
        Given (k.cloneCtxEnter flags t e).1 (some ctx.savePid) ctx.saveIpc := by
  unfold Kernel.cloneCtxEnter
  have hn := h.newNamespaces flags t t e
  rcases hr : k.newNamespaces flags t t e with ⟨k₁, err | ⟨newPid, newIpc⟩⟩ <;> rw [hr] at hn <;>
    dsimp only
  · exact ⟨hn.1, by simp⟩
  · have hm := hn.1.wf.createNewNamespaces 0 t e.cnnPriv
    rcases hr' : k₁.createNewNamespaces 0 t e.cnnPriv with ⟨k₂, err | q⟩ <;> rw [hr'] at hm <;>
      dsimp only
    · exact ⟨hn.1.trans (hm.1.trans hm.1.wf.putNew), by simp⟩
    · have hs : Grows k₂ (k₂.switchTaskNamespaces t (some q)) := by
        refine hm.1.wf.switchTaskNamespaces ?_
        rintro q' ⟨⟩
        exact ⟨Nat.lt_of_lt_of_le ht (Nat.le_trans hn.1.task hm.1.task), hm.2 q rfl⟩
      have hg := hn.1.trans (hm.1.trans hs)
      split
      · exact ⟨hg, by simp⟩
      next x hx =>
        have ha := hs.wf.attach (q := q) (((hn.2 newPid newIpc rfl).grows hm.1).grows hs)
        refine ⟨hg.trans ha, ?_⟩
        rintro ctx ⟨⟩
        refine Given.grows ⟨?_, (hs.wf.nsp q x hx).2.2.2⟩ ha
        rintro n ⟨⟩
        exact (hs.wf.nsp q x hx).2.2.1

theorem Wf.restore (h : Wf k) {ctx : CloneCtx} (hc : Given k (some ctx.savePid) ctx.saveIpc)
    (q : ℕ) : Grows k (k.restore q ctx) := by
  have hp := h.setPidNs (q := q) (hc.1 _ rfl)
  exact hp.trans (hp.wf.setIpcNs (hc.grows hp).2)

theorem Wf.cloneCtxLeave (h : Wf k) {ctx : CloneCtx} (ht : t < k.nextTask)
    (hc : Given k (some ctx.savePid) ctx.saveIpc) (e : Env) :
    Grows k (k.cloneCtxLeave t ctx e) := by
  unfold Kernel.cloneCtxLeave
  have hm := h.createNewNamespaces 0 t e.cnnLeave
  rcases hr : k.createNewNamespaces 0 t e.cnnLeave with ⟨k₁, err | q⟩ <;> rw [hr] at hm <;>
    dsimp only
  · split
    · exact hm.1
    · exact hm.1.trans (hm.1.wf.restore (hc.grows hm.1) _)
  · have hs := hm.1.wf.restore (hc.grows hm.1) q
    refine hm.1.trans (hs.trans (hs.wf.nsproxySwitch ?_))
    rintro q' ⟨⟩
    exact ⟨Nat.lt_of_lt_of_le ht (hm.1.trans hs).task, Nat.lt_of_lt_of_le (hm.2 q rfl) hs.nsp⟩

theorem Wf.cloneBetween (h : Wf k) (flags : Flags) (ht : t < k.nextTask) (e : Env)
    {orig : Kernel → Kernel × Except ℤ ℕ} (ho : ∀ k, Wf k → Grows k (orig k).1) :
    Grows k (k.cloneBetween flags t e orig).1 := by
  unfold Kernel.cloneBetween
  split
  · exact h.refl
  · have hn := h.cloneCtxEnter flags ht e
    rcases hr : k.cloneCtxEnter flags t e with ⟨k₁, err | ctx⟩ <;> rw [hr] at hn <;> dsimp only
    · exact hn.1
    · have hk := ho k₁ hn.1.wf
      exact (hn.1.trans hk).trans (hk.wf.cloneCtxLeave
        (Nat.lt_of_lt_of_le ht (hn.1.trans hk).task) ((hn.2 ctx rfl).grows hk) e)

theorem Wf.sysClone (h : Wf k) (flags : Flags) (ht : t < k.nextTask) (e : Env) :
    Grows k (k.sysClone flags t e).1 := by
  unfold Kernel.sysClone
  split
  · exact h.kernelClone _ _ _
  · exact h.cloneBetween flags ht e fun k hk => hk.kernelClone _ _ _

theorem Wf.kernelClone3 (h : Wf k) (flags : Flags) (t : ℕ) (u : UserArgs) (e : Env) :
    Grows k (k.kernelClone3 flags t u e).1 := by
  unfold Kernel.kernelClone3
  split
  · exact h.refl
  · exact h.kernelClone _ _ _

theorem Wf.sysClone3 (h : Wf k) (flags : Flags) (ht : t < k.nextTask) (u : UserArgs) (e : Env) :
    Grows k (k.sysClone3 flags t u e).1 := by
  unfold Kernel.sysClone3
  split
  · exact h.kernelClone3 _ _ _ _
  · refine h.cloneBetween flags ht e ?_
    intro k hk
    split
    · exact hk.refl
    · exact hk.kernelClone3 _ _ _ _

/-! ## `unshare`, `setns` and `/proc/<pid>/ns/ipc` -/

theorem Wf.kernelUnshare (h : Wf k) (flags : Flags) (ht : t < k.nextTask) (e : Env) :
    Grows k (k.kernelUnshare flags t e).1 := by
  unfold Kernel.kernelUnshare
  split
  · exact h.refl
  split
  · exact h.refl
  split
  · exact h.refl
  · have hm := h.createEntry flags t t e
    rcases hr : k.createEntry flags t t e with ⟨k₁, err | q⟩ <;> rw [hr] at hm <;> dsimp only
    · exact hm.1
    · refine hm.1.trans (hm.1.wf.switchTaskNamespaces ?_)
      rintro q' ⟨⟩
      exact ⟨Nat.lt_of_lt_of_le ht hm.1.task, hm.2 q rfl⟩

theorem Wf.slotInstallIpcns (h : Wf k) (t : ℕ) (e : Env) : Grows k (k.slotInstallIpcns t e).1 := by
  unfold Kernel.slotInstallIpcns
  have hn := h.ipcnsCreate e.ipcns
  rcases hr : k.ipcnsCreate e.ipcns with ⟨k₁, err | n⟩ <;> rw [hr] at hn <;> dsimp only
  · exact hn.1
  · split
    · exact hn.1.trans (hn.1.wf.ipcnsPut (some n))
    next q _ =>
      have ha : Grows k₁ (k₁.attachIpcNs q (some n)) := by
        refine hn.1.wf.attachIpcNs ?_
        rintro n' ⟨⟩
        exact hn.2 n rfl
      exact hn.1.trans ha

theorem Wf.slotInstallPidns (h : Wf k) (t : ℕ) (e : Env) : Grows k (k.slotInstallPidns t e).1 := by
  unfold Kernel.slotInstallPidns Kernel.pidnsCreateForCurrent
  generalize ((k.nsproxyOf t).map (·.pidNsForChildren)).getD 0 = p
  have hn := h.pidnsCreate p e.pidns
  rcases hr : k.pidnsCreate p e.pidns with ⟨k₁, err | n⟩ <;> rw [hr] at hn
  · exact hn.1
  · dsimp only
    split
    · exact hn.1.trans (hn.1.wf.pidnsPut (some n))
    next q _ =>
      have ha : Grows k₁ (k₁.attachPidNs q (some n)) := by
        refine hn.1.wf.attachPidNs ?_
        rintro n' ⟨⟩
        exact hn.2 n rfl
      exact hn.1.trans ha

theorem Wf.setnsRun (h : Wf k) (ht : t < k.nextTask) (e : Env)
    {install : Kernel → ℕ → Kernel × ℤ}
    (hi : ∀ k₁ q, Grows k k₁ → Grows k₁ (install k₁ q).1) : Grows k (k.setnsRun t e install).1 := by
  unfold Kernel.setnsRun
  have hm := h.createEntry 0 t t e
  rcases hr : k.createEntry 0 t t e with ⟨k₁, err | q⟩ <;> rw [hr] at hm <;> dsimp only
  · exact hm.1
  · have hg := hi k₁ q hm.1
    refine (hm.1.trans hg).trans ?_
    split
    · exact hg.wf.setNsp (by simp)
    · refine hg.wf.switchTaskNamespaces ?_
      rintro q' ⟨⟩
      exact ⟨Nat.lt_of_lt_of_le ht (hm.1.trans hg).task, Nat.lt_of_lt_of_le (hm.2 q rfl) hg.nsp⟩

theorem Wf.taskNs (h : Wf k) (t : ℕ) : k.ipcnsTaskNs t < k.nextIpc := by
  unfold ipcnsTaskNs
  rcases hx : k.nsproxyOf t with _ | x
  · exact h.host.1
  · rcases hn : x.ipcNs with _ | n
    · simpa [hn] using h.host.1
    · simpa [hn] using (h.names hx).2.2.2 n hn

theorem Wf.setHandles (h : Wf k) {l : List ℕ} (hl : ∀ n ∈ l, n < k.nextIpc) :
    Grows k { k with handles := l } :=
  ⟨⟨h.task, h.nsp, hl, h.host⟩, Nat.le_refl _, Nat.le_refl _, Nat.le_refl _,
    Nat.le_refl _, rfl⟩

theorem Wf.ipcnsGetTask (h : Wf k) (t : ℕ) : Grows k (k.ipcnsGetTask t) := by
  have hg := h.setIpcns (k.ipcnsGet (k.ipcnsTaskNs t)).ipcns
  refine hg.trans (hg.wf.setHandles ?_)
  intro n hn
  rcases List.mem_cons.1 hn with rfl | hn
  · exact h.taskNs t
  · exact h.handle n hn

theorem Wf.ipcnsPutCommon (h : Wf k) (n : ℕ) : Grows k (k.ipcnsPutCommon n) := by
  have hg := h.setHandles (l := k.handles.erase n) fun m hm => h.handle m (List.mem_of_mem_erase hm)
  exact hg.trans (hg.wf.ipcnsPut _)

end DroidLkm.Slot.Kernel
