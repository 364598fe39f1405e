/-
  What the exit of the module leaves behind.

  * `NoDangling`: what is freed is named by nobody, and what is named by
    somebody when the exit gets to it is neutralized;
  * `Clean`: the steps after which that is so;
  * `Ahead`: a walk has still to come to the nsproxy of a thread;
  * `Phase`: what holds at each place of the exit;
  * `exit_noDangling`: runs of such steps;
  * `inode_dangles`: the last reference that the exit puts is that of an inode,
    and a thread that leads no process is not come to.
-/
import Mathlib.Tactic.ByContra
import Mathlib.Tactic.SplitIfs
import DroidLkm.Unload.World

namespace DroidLkm.Unload

open Machine

variable {c : Config} {host initTask reaper n m t u q : ℕ} {owned : Bool} {w w' : World} {act : Act}
  {cur : Option ℕ} {rest : List ℕ} {fate : Fate} {v : Verdict} {e : IpcEntry} {pc : Pc}

/-- A state in which the exit can begin: any threads, proxies, inodes, queues and
    worker. -/
structure Start (c : Config) (w : World) : Prop where
  pc : w.pc = .start
  logs : w.ipcLog = [] ∧ w.pidLog = []
  /-- `init_pid_ns` is on no list -/
  pids : 0 ∉ w.pidnsList
  ipcs : ∀ e ∈ w.ipcnsList, e.kernelOwned = (c.kernelOwned && decide (e.ns ≠ c.host))
  /-- an inode has a reference to the namespace that the module made -/
  counted : c.kernelOwned = false → ∀ n, n ≠ c.host → (w.ipcns n).inode = true →
    0 < (w.ipcns n).refcount

/-- The nsproxy of the thread names an ipc namespace on the list, -/
def NamesIpc (w : World) (t : ℕ) : Prop :=
  ∃ q n, w.nsproxy t = some q ∧ w.ipcOf q = some n ∧ w.ipcnsIsOurs n = true

/-- or a pid namespace. -/
def NamesPid (w : World) (t : ℕ) : Prop := ∃ q, w.nsproxy t = some q ∧ w.pidOf q ∈ w.pidnsList

/-- The walk has still to come to a thread with the same nsproxy. -/
def Ahead (w : World) (rest : List ℕ) (t : ℕ) : Prop := ∃ u ∈ rest, w.nsproxy u = w.nsproxy t

/-- What is ahead of the walk does not depend on thread `t`, for those that `names` is
    about. -/
def Spare (w : World) (rest : List ℕ) (t : ℕ) (names : World → ℕ → Prop) : Prop :=
  ∀ u ∈ w.tasks, u ≠ t → w.nsproxy u = w.nsproxy t → names w u →
    ∃ v ∈ rest, v ≠ t ∧ w.nsproxy v = w.nsproxy t

/-- The steps after which nothing dangles. -/
def Clean (c : Config) (w : World) : Act → Prop
  | .exit => match w.pc with
    -- a walk comes to leaders only
    | .deferred => w.deferredList = [] → ∀ t ∈ w.tasks, NamesIpc w t →
        Ahead w w.eachProcessThread t
    | .zapClear => ∀ t ∈ w.tasks, NamesPid w t → Ahead w w.eachProcessThread t
    -- nobody looks at the inodes and entries of the host and of the kernel's
    | .ipcs => ∀ e rest, w.ipcnsList = e :: rest → e.kernelOwned = true ∨ e.ns = c.host →
        (w.ipcns e.ns).inode = false ∧ w.deferredNames e.ns = false
    -- nor at the entries of the module's own
    | .ipcCount n => (w.ipcns n).refcount = 0 → w.deferredNames n = false
    -- an inode whose stash is gone is still counted
    | .pidCount n => (w.pidns n).inode = true → 1 < (w.pidns n).refcount
    | _ => True
  -- what a thread puts is not the reference of an inode
  | .leave t => (c.kernelOwned = false → ∀ q n, w.nsproxy t = some q → w.ipcOf q = some n →
      w.nsproxyLast t q = true → (w.ipcns n).inode = true → 1 < (w.ipcns n).refcount) ∧
    -- and it takes its nsproxy from no walk that others with it wait for
    match w.pc with
    | .walkIpc rest => Spare w rest t NamesIpc
    | .walkPid rest => Spare w rest t NamesPid
    | _ => True
  | _ => True

/-! ## The places of the exit -/

/-- No thread names what is on the list, is being looked at or has been. -/
def IpcClear (w : World) (cur : Option ℕ) (t : ℕ) : Prop :=
  ∀ q n, w.nsproxy t = some q → w.ipcOf q = some n →
    (∀ e ∈ w.ipcnsList, e.ns ≠ n) ∧ cur ≠ some n ∧ ∀ v ∈ w.ipcLog, v.ns ≠ n

def PidClear (w : World) (cur : Option ℕ) (t : ℕ) : Prop :=
  ∀ q, w.nsproxy t = some q →
    w.pidOf q ∉ w.pidnsList ∧ cur ≠ some (w.pidOf q) ∧ ∀ v ∈ w.pidLog, v.ns ≠ w.pidOf q

/-- The worker is gone, and so are its queue and the hook that fills it. -/
def Stopped (w : World) : Prop := w.kprobe = false ∧ w.worker = .stopped ∧ w.zapList = []

def Phase (host : ℕ) (owned : Bool) (w : World) : Pc → Prop
  | .start | .deferred | .run _ => w.ipcLog = [] ∧ w.pidLog = []
  | .walkIpc rest => (w.ipcLog = [] ∧ w.pidLog = []) ∧
      ∀ t ∈ w.tasks, IpcClear w none t ∨ Ahead w rest t
  | .ipcs | .kprobe => w.pidLog = [] ∧ ∀ t ∈ w.tasks, IpcClear w none t
  | .ipcStash n | .ipcCount n => (w.pidLog = [] ∧ n ≠ host ∧ owned = false) ∧
      ∀ t ∈ w.tasks, IpcClear w (some n) t
  | .ipcUse n => (w.pidLog = [] ∧ n ≠ host) ∧
      ((w.ipcns n).inode = false ∧ w.deferredNames n = false) ∧
      ∀ t ∈ w.tasks, IpcClear w (some n) t
  | .stop => (w.pidLog = [] ∧ w.kprobe = false) ∧ ∀ t ∈ w.tasks, IpcClear w none t
  | .zapClear => (w.pidLog = [] ∧ w.kprobe = false ∧ w.worker = .stopped) ∧
      ∀ t ∈ w.tasks, IpcClear w none t
  | .walkPid rest => (w.pidLog = [] ∧ Stopped w) ∧ (∀ t ∈ w.tasks, IpcClear w none t) ∧
      ∀ t ∈ w.tasks, PidClear w none t ∨ Ahead w rest t
  | .pids | .done => Stopped w ∧ (∀ t ∈ w.tasks, IpcClear w none t) ∧
      ∀ t ∈ w.tasks, PidClear w none t
  | .pidStash n | .pidCount n => Stopped w ∧ (∀ t ∈ w.tasks, IpcClear w none t) ∧
      ∀ t ∈ w.tasks, PidClear w (some n) t
  | .pidIdr n => ((w.pidns n).inode = false ∧ Stopped w) ∧
      (∀ t ∈ w.tasks, IpcClear w none t) ∧ ∀ t ∈ w.tasks, PidClear w (some n) t

/-- What holds everywhere. -/
structure Base (host : ℕ) (owned : Bool) (w : World) : Prop where
  pids : 0 ∉ w.pidnsList
  ipcs : ∀ e ∈ w.ipcnsList, e.kernelOwned = (owned && decide (e.ns ≠ host))
  counted : owned = false → ∀ n, n ≠ host → (w.ipcns n).inode = true → 0 < (w.ipcns n).refcount
  ipcLog : ∀ v ∈ w.ipcLog, (v.named = true → v.fate = .neutralized) ∧ (v.fate = .freed →
    v.ns ≠ host ∧ (w.ipcns v.ns).inode = false ∧ w.deferredNames v.ns = false)
  pidLog : ∀ v ∈ w.pidLog, (v.named = true → v.fate = .neutralized) ∧ (v.fate = .freed →
    (w.pidns v.ns).inode = false)

structure Inv (host : ℕ) (owned : Bool) (w : World) : Prop extends Base host owned w where
  phase : Phase host owned w w.pc

/-! ## Names -/

/-- What no thread names that is on the list, looked at, or dealt with. -/
theorem tasksNameIpc_false (h : ∀ t ∈ w.tasks, IpcClear w cur t)
    (hn : (∃ e ∈ w.ipcnsList, e.ns = n) ∨ cur = some n ∨ ∃ v ∈ w.ipcLog, v.ns = n) :
    w.tasksNameIpc n = false := by
  unfold World.tasksNameIpc
  rw [List.any_eq_false]
  intro t ht hany
  obtain ⟨q, hq, hqn⟩ := (Option.any_eq_true _ _).1 hany
  obtain ⟨hlist, hcur, hlog⟩ := h t ht q n hq (of_decide_eq_true hqn)
  rcases hn with ⟨e, he, hen⟩ | hn | ⟨v, hv, hvn⟩
  · exact hlist e he hen
  · exact hcur hn
  · exact hlog v hv hvn

theorem tasksNamePid_false (h : ∀ t ∈ w.tasks, PidClear w cur t)
    (hn : cur = some n ∨ ∃ v ∈ w.pidLog, v.ns = n) : w.tasksNamePid n = false := by
  unfold World.tasksNamePid
  rw [List.any_eq_false]
  intro t ht hany
  obtain ⟨q, hq, hqn⟩ := (Option.any_eq_true _ _).1 hany
  obtain ⟨-, hcur, hlog⟩ := h t ht q hq
  rw [of_decide_eq_true hqn] at hcur hlog
  rcases hn with hn | ⟨v, hv, hvn⟩
  · exact hcur hn
  · exact hlog v hv hvn

theorem ipcNamed_false (ht : w.tasksNameIpc n = false) (hi : (w.ipcns n).inode = false)
    (hd : w.deferredNames n = false) : w.ipcNamed n = false := by
  unfold World.ipcNamed
  rw [ht, hi, hd]
  rfl

theorem pidNamed_false (ht : w.tasksNamePid n = false) (hi : (w.pidns n).inode = false)
    (hs : Stopped w) : w.pidNamed n = false := by
  obtain ⟨-, hw, hz⟩ := hs
  unfold World.pidNamed
  rw [ht, hi, hw, hz]
  rfl

theorem Phase.ipcClear (h : Phase host owned w pc) (hv : v ∈ w.ipcLog) :
    ∃ cur, ∀ t ∈ w.tasks, IpcClear w cur t := by
  have hnil (hl : w.ipcLog = []) : False := by
    rw [hl] at hv
    cases hv
  cases pc with
  | start => exact (hnil h.1).elim
  | deferred => exact (hnil h.1).elim
  | run n => exact (hnil h.1).elim
  | walkIpc rest => exact (hnil h.1.1).elim
  | ipcs => exact ⟨_, h.2⟩
  | ipcStash n => exact ⟨_, h.2⟩
  | ipcCount n => exact ⟨_, h.2⟩
  | ipcUse n => exact ⟨_, h.2.2⟩
  | kprobe => exact ⟨_, h.2⟩
  | stop => exact ⟨_, h.2⟩
  | zapClear => exact ⟨_, h.2⟩
  | walkPid rest => exact ⟨_, h.2.1⟩
  | pids => exact ⟨_, h.2.1⟩
  | pidStash n => exact ⟨_, h.2.1⟩
  | pidCount n => exact ⟨_, h.2.1⟩
  | pidIdr n => exact ⟨_, h.2.1⟩
  | done => exact ⟨_, h.2.1⟩

/-- Fewer names than before, but for an entry that a thread queues. -/
structure Fewer (host : ℕ) (w w' : World) : Prop where
  pc : w'.pc = w.pc
  logs : w'.ipcLog = w.ipcLog ∧ w'.pidLog = w.pidLog
  tasks : ∀ t ∈ w'.tasks, t ∈ w.tasks
  nsproxy : ∀ t q, w'.nsproxy t = some q → w.nsproxy t = some q
  names : w'.pidOf = w.pidOf ∧ w'.ipcOf = w.ipcOf
  pids : w'.pidnsList = w.pidnsList
  ipcs : ∀ e ∈ w'.ipcnsList, e ∈ w.ipcnsList
  pidInode : ∀ n, (w.pidns n).inode = false → (w'.pidns n).inode = false
  ipcInode : ∀ n, (w.ipcns n).inode = false → (w'.ipcns n).inode = false
  deferred : ∀ n, n ≠ host → w.tasksNameIpc n = false → w.deferredNames n = false →
    w'.deferredNames n = false
  stopped : w'.kprobe = w.kprobe ∧ (w.worker = .stopped → w'.worker = .stopped) ∧
    (w.kprobe = false → w.zapList = [] → w'.zapList = [])

theorem IpcClear.fewer (h : IpcClear w cur t) (hf : Fewer host w w') : IpcClear w' cur t := by
  intro q n hq hn
  rw [hf.names.2] at hn
  obtain ⟨hlist, hcur, hlog⟩ := h q n (hf.nsproxy t q hq) hn
  exact ⟨fun e he => hlist e (hf.ipcs e he), hcur, by rw [hf.logs.1]; exact hlog⟩

theorem PidClear.fewer (h : PidClear w cur t) (hf : Fewer host w w') : PidClear w' cur t := by
  intro q hq
  rw [hf.names.1, hf.pids, hf.logs.2]
  exact h q (hf.nsproxy t q hq)

theorem Stopped.fewer (h : Stopped w) (hf : Fewer host w w') : Stopped w' :=
  ⟨hf.stopped.1.trans h.1, hf.stopped.2.1 h.2.1, hf.stopped.2.2 h.1 h.2.2⟩

/-- What a walk has ahead of it stays so, or is done with. -/
def Kept (w w' : World) : Pc → Prop
  | .walkIpc rest => ∀ t ∈ w'.tasks, Ahead w rest t → IpcClear w' none t ∨ Ahead w' rest t
  | .walkPid rest => ∀ t ∈ w'.tasks, Ahead w rest t → PidClear w' none t ∨ Ahead w' rest t
  | _ => True

theorem Kept.of_nsproxy (h : w'.nsproxy = w.nsproxy) : Kept w w' pc := by
  have hahead {rest : List ℕ} {t : ℕ} : Ahead w rest t → Ahead w' rest t := by
    rintro ⟨u, hu, heq⟩
    exact ⟨u, hu, by rw [h, heq]⟩
  cases pc with
  | walkIpc rest => exact fun _ _ ha => .inr (hahead ha)
  | walkPid rest => exact fun _ _ ha => .inr (hahead ha)
  | _ => exact trivial

theorem Phase.fewer (h : Phase host owned w pc) (hf : Fewer host w w') (hk : Kept w w' pc) :
    Phase host owned w' pc := by
  have hipc {cur : Option ℕ} (hc : ∀ t ∈ w.tasks, IpcClear w cur t) :
      ∀ t ∈ w'.tasks, IpcClear w' cur t := fun t ht => (hc t (hf.tasks t ht)).fewer hf
  have hpid {cur : Option ℕ} (hc : ∀ t ∈ w.tasks, PidClear w cur t) :
      ∀ t ∈ w'.tasks, PidClear w' cur t := fun t ht => (hc t (hf.tasks t ht)).fewer hf
  have hlogs (hl : w.ipcLog = [] ∧ w.pidLog = []) : w'.ipcLog = [] ∧ w'.pidLog = [] :=
    ⟨hf.logs.1.trans hl.1, hf.logs.2.trans hl.2⟩
  have hlog (hl : w.pidLog = []) : w'.pidLog = [] := hf.logs.2.trans hl
  cases pc with
  | start => exact hlogs h
  | deferred => exact hlogs h
  | run n => exact hlogs h
  | walkIpc rest =>
    exact ⟨hlogs h.1, fun t ht => (h.2 t (hf.tasks t ht)).elim (fun hc => .inl (hc.fewer hf))
      (hk t ht)⟩
  | ipcs => exact ⟨hlog h.1, hipc h.2⟩
  | ipcStash n => exact ⟨⟨hlog h.1.1, h.1.2⟩, hipc h.2⟩
  | ipcCount n => exact ⟨⟨hlog h.1.1, h.1.2⟩, hipc h.2⟩
  | ipcUse n =>
    obtain ⟨⟨hl, hn⟩, ⟨hi, hd⟩, hc⟩ := h
    have ht := tasksNameIpc_false hc (.inr (.inl rfl))
    exact ⟨⟨hlog hl, hn⟩, ⟨hf.ipcInode n hi, hf.deferred n hn ht hd⟩, hipc hc⟩
  | kprobe => exact ⟨hlog h.1, hipc h.2⟩
  | stop => exact ⟨⟨hlog h.1.1, hf.stopped.1.trans h.1.2⟩, hipc h.2⟩
  | zapClear =>
    exact ⟨⟨hlog h.1.1, hf.stopped.1.trans h.1.2.1, hf.stopped.2.1 h.1.2.2⟩, hipc h.2⟩
  | walkPid rest =>
    exact ⟨⟨hlog h.1.1, h.1.2.fewer hf⟩, hipc h.2.1,
      fun t ht => (h.2.2 t (hf.tasks t ht)).elim (fun hc => .inl (hc.fewer hf)) (hk t ht)⟩
  | pids => exact ⟨h.1.fewer hf, hipc h.2.1, hpid h.2.2⟩
  | pidStash n => exact ⟨h.1.fewer hf, hipc h.2.1, hpid h.2.2⟩
  | pidCount n => exact ⟨h.1.fewer hf, hipc h.2.1, hpid h.2.2⟩
  | pidIdr n => exact ⟨⟨hf.pidInode n h.1.1, h.1.2.fewer hf⟩, hipc h.2.1, hpid h.2.2⟩
  | done => exact ⟨h.1.fewer hf, hipc h.2.1, hpid h.2.2⟩

theorem Inv.fewer (h : Inv host owned w) (hf : Fewer host w w') (hk : Kept w w' w.pc)
    (hc : owned = false → ∀ n, n ≠ host → (w'.ipcns n).inode = true →
      0 < (w'.ipcns n).refcount) : Inv host owned w' where
  pids := by
    rw [hf.pids]
    exact h.pids
  ipcs e he := h.ipcs e (hf.ipcs e he)
  counted := hc
  ipcLog v hv := by
    rw [hf.logs.1] at hv
    obtain ⟨hk, hg⟩ := h.ipcLog v hv
    refine ⟨hk, fun hfr => ?_⟩
    obtain ⟨hn, hi, hd⟩ := hg hfr
    obtain ⟨cur, hcl⟩ := h.phase.ipcClear hv
    have ht := tasksNameIpc_false hcl (.inr (.inr ⟨v, hv, rfl⟩))
    exact ⟨hn, hf.ipcInode _ hi, hf.deferred _ hn ht hd⟩
  pidLog v hv := by
    rw [hf.logs.2] at hv
    obtain ⟨hk, hg⟩ := h.pidLog v hv
    exact ⟨hk, fun hfr => hf.pidInode _ (hg hfr)⟩
  phase := by
    rw [hf.pc]
    exact h.phase.fewer hf hk

theorem Fewer.refl (host : ℕ) (w : World) : Fewer host w w :=
  ⟨rfl, ⟨rfl, rfl⟩, fun _ => id, fun _ _ => id, ⟨rfl, rfl⟩, rfl, fun _ => id, fun _ => id,
    fun _ => id, fun _ _ _ => id, rfl, id, fun _ => id⟩

theorem Fewer.tasksNameIpc (h : Fewer host w w') (hn : w.tasksNameIpc n = false) :
    w'.tasksNameIpc n = false := by
  unfold World.tasksNameIpc at hn ⊢
  rw [List.any_eq_false] at hn ⊢
  intro t ht hany
  obtain ⟨q, hq, hqn⟩ := (Option.any_eq_true _ _).1 hany
  rw [h.names.2] at hqn
  exact hn t (h.tasks t ht) ((Option.any_eq_true _ _).2 ⟨q, h.nsproxy t q hq, hqn⟩)

theorem Fewer.trans {w₁ w₂ : World} (h : Fewer host w w₁) (h' : Fewer host w₁ w₂) :
    Fewer host w w₂ where
  pc := h'.pc.trans h.pc
  logs := ⟨h'.logs.1.trans h.logs.1, h'.logs.2.trans h.logs.2⟩
  tasks t ht := h.tasks t (h'.tasks t ht)
  nsproxy t q hq := h.nsproxy t q (h'.nsproxy t q hq)
  names := ⟨h'.names.1.trans h.names.1, h'.names.2.trans h.names.2⟩
  pids := h'.pids.trans h.pids
  ipcs e he := h.ipcs e (h'.ipcs e he)
  pidInode n hn := h'.pidInode n (h.pidInode n hn)
  ipcInode n hn := h'.ipcInode n (h.ipcInode n hn)
  deferred n hn ht hd := h'.deferred n hn (h.tasksNameIpc ht) (h.deferred n hn ht hd)
  stopped := by
    refine ⟨h'.stopped.1.trans h.stopped.1, fun hw => h'.stopped.2.1 (h.stopped.2.1 hw), ?_⟩
    intro hk hz
    exact h'.stopped.2.2 (h.stopped.1.trans hk) (h.stopped.2.2 hk hz)

theorem setPid_fewer {x : PidNs} (hx : (w.pidns n).inode = false → x.inode = false) :
    Fewer host w (w.setPid n x) := by
  refine ⟨rfl, ⟨rfl, rfl⟩, fun _ => id, fun _ _ => id, ⟨rfl, rfl⟩, rfl, fun _ => id,
    fun m hm => ?_, fun _ => id, fun _ _ _ => id, rfl, id, fun _ => id⟩
  unfold World.setPid
  dsimp only
  by_cases hmn : m = n
  · subst hmn
    rw [Function.update_self]
    exact hx hm
  · rw [Function.update_of_ne hmn]
    exact hm

theorem setIpc_fewer {x : IpcNs} (hx : (w.ipcns n).inode = false → x.inode = false) :
    Fewer host w (w.setIpc n x) := by
  refine ⟨rfl, ⟨rfl, rfl⟩, fun _ => id, fun _ _ => id, ⟨rfl, rfl⟩, rfl, fun _ => id,
    fun _ => id, fun m hm => ?_, fun _ _ _ => id, rfl, id, fun _ => id⟩
  unfold World.setIpc
  dsimp only
  by_cases hmn : m = n
  · subst hmn
    rw [Function.update_self]
    exact hx hm
  · rw [Function.update_of_ne hmn]
    exact hm

theorem ipcClear_of_not (hl : w.ipcLog = []) (h : ¬NamesIpc w t) : IpcClear w none t := by
  intro q n hq hn
  refine ⟨fun e he hen => h ⟨q, n, hq, hn, ?_⟩, nofun, fun v hv => by rw [hl] at hv; cases hv⟩
  exact List.any_eq_true.2 ⟨e, he, decide_eq_true hen⟩

theorem pidClear_of_not (hl : w.pidLog = []) (h : ¬NamesPid w t) : PidClear w none t :=
  fun q hq => ⟨fun hm => h ⟨q, hq, hm⟩, nofun, fun v hv => by rw [hl] at hv; cases hv⟩

/-- The inodes of the namespaces that the module made are counted. -/
def Counted (host : ℕ) (w : World) : Prop :=
  ∀ n, n ≠ host → (w.ipcns n).inode = true → 0 < (w.ipcns n).refcount

theorem Counted.setIpc {x : IpcNs} (h : Counted host w)
    (hx : n ≠ host → x.inode = true → 0 < x.refcount) : Counted host (w.setIpc n x) := by
  intro m hm hi
  unfold World.setIpc at hi ⊢
  dsimp only at hi ⊢
  by_cases hmn : m = n
  · subst hmn
    rw [Function.update_self] at hi ⊢
    exact hx hm hi
  · rw [Function.update_of_ne hmn] at hi ⊢
    exact h m hm hi

/-- A put that takes no reference of an inode. -/
theorem Counted.ipcnsPut (h : Counted host w)
    (hn : (w.ipcns n).inode = true → 1 < (w.ipcns n).refcount) :
    Counted host (w.ipcnsPut host n) := by
  unfold World.ipcnsPut World.ipcDec
  split
  · exact h.setIpc fun _ _ => Nat.one_pos
  · exact h.setIpc fun _ hi => Nat.sub_pos_of_lt (hn hi)

theorem ipcDec_fewer : Fewer host w (w.ipcDec n) := setIpc_fewer id

theorem ipcnsPut_fewer : Fewer host w (w.ipcnsPut host n) := by
  unfold World.ipcnsPut
  split
  · exact setIpc_fewer id
  · exact ipcDec_fewer

theorem pidnsPut_fewer : Fewer host w (w.pidnsPut n) := by
  unfold World.pidnsPut
  split
  · exact .refl host w
  · exact setPid_fewer id

theorem deferredNames_false : w.deferredNames n = false ↔
    n ∉ w.deferredList ∧ w.worker ≠ .run n ∧ w.pc ≠ .run n := by
  unfold World.deferredNames
  simp only [Bool.or_eq_false_iff, decide_eq_false_iff_not, ne_eq, and_assoc]

/-- The worker is elsewhere, and its queues are no longer than before. -/
theorem Fewer.of_worker {x : Worker} {zaps defers : List ℕ}
    (hz : w.zapList = [] → zaps = []) (hd : ∀ n, n ∉ w.deferredList → n ∉ defers)
    (hx : ∀ n, x = .run n → n ∈ w.deferredList) (hs : w.worker ≠ .stopped) :
    Fewer host w { w with worker := x, zapList := zaps, deferredList := defers } := by
  refine ⟨rfl, ⟨rfl, rfl⟩, fun _ => id, fun _ _ => id, ⟨rfl, rfl⟩, rfl, fun _ => id, fun _ => id,
    fun _ => id, fun n _ _ hn => ?_, rfl, fun h => absurd h hs, fun _ => hz⟩
  rw [deferredNames_false] at hn ⊢
  exact ⟨hd n hn.1, fun hx' => hn.1 (hx n hx'), hn.2.2⟩

theorem worker_fewer {host : ℕ} (h : w.workerStep = some w') :
    Fewer host w w' ∧ w'.ipcns = w.ipcns ∧ w'.nsproxy = w.nsproxy := by
  unfold World.workerStep at h
  cases hw : w.worker with
  | wait =>
    rw [hw] at h
    obtain rfl := Option.some.inj h
    refine ⟨.of_worker id (fun _ => id) (fun n hn => ?_) (by rw [hw]; nofun), rfl, rfl⟩
    split at hn <;> cases hn
  | zaps =>
    rw [hw] at h
    dsimp only at h
    cases hz : w.zapList with
    | nil =>
      rw [hz] at h
      obtain rfl := Option.some.inj h
      exact ⟨.of_worker (fun _ => rfl) (fun _ => id) nofun (by rw [hw]; nofun), rfl, rfl⟩
    | cons n rest =>
      rw [hz] at h
      obtain rfl := Option.some.inj h
      exact ⟨.of_worker (by rw [hz]; nofun) (fun _ => id) nofun (by rw [hw]; nofun), rfl, rfl⟩
  | zap n =>
    rw [hw] at h
    obtain rfl := Option.some.inj h
    exact ⟨.of_worker id (fun _ => id) nofun (by rw [hw]; nofun), rfl, rfl⟩
  | deferred =>
    rw [hw] at h
    dsimp only at h
    cases hd : w.deferredList with
    | nil =>
      rw [hd] at h
      obtain rfl := Option.some.inj h
      exact ⟨.of_worker id (fun _ _ => List.not_mem_nil) nofun (by rw [hw]; nofun), rfl, rfl⟩
    | cons n rest =>
      rw [hd] at h
      obtain rfl := Option.some.inj h
      refine ⟨.of_worker id (fun m hm hr => hm ?_) (fun m hm => ?_) (by rw [hw]; nofun), rfl, rfl⟩
      · rw [hd]
        exact List.mem_cons_of_mem n hr
      · cases hm
        rw [hd]
        exact List.mem_cons_self
  | run n =>
    rw [hw] at h
    obtain rfl := Option.some.inj h
    exact ⟨.of_worker id (fun _ => id) nofun (by rw [hw]; nofun), rfl, rfl⟩
  | stopped =>
    rw [hw] at h
    cases h

/-- What is queued is the host, or what the thread names. -/
theorem exitDefer_fewer (ht : t ∈ w.tasks) : Fewer host w (w.exitDefer host t) := by
  unfold World.exitDefer
  split
  · refine ⟨rfl, ⟨rfl, rfl⟩, fun _ => id, fun _ _ => id, ⟨rfl, rfl⟩, rfl, fun _ => id, fun _ => id,
      fun _ => id, fun n hn hname hd => ?_, rfl, id, fun _ => id⟩
    rw [deferredNames_false] at hd ⊢
    refine ⟨fun hmem => ?_, hd.2⟩
    rcases List.mem_append.1 hmem with hmem | hmem
    · exact hd.1 hmem
    · rw [List.mem_singleton] at hmem
      cases hp : (w.nsproxy t).bind w.ipcOf with
      | none =>
        rw [hp] at hmem
        exact hn hmem
      | some m =>
        rw [hp] at hmem
        obtain rfl : n = m := hmem
        obtain ⟨q, hq, hqn⟩ := Option.bind_eq_some_iff.1 hp
        unfold World.tasksNameIpc at hname
        rw [List.any_eq_false] at hname
        exact hname t ht ((Option.any_eq_true _ _).2 ⟨q, hq, decide_eq_true hqn⟩)
  · exact .refl host w

/-- The queue of the zaps may grow while the hook is there. -/
theorem Fewer.of_zaps {reapers : ℕ → ℕ} {zaps : List ℕ} {queued : ℕ → Bool}
    (hk : w.kprobe = true) : Fewer host w { w with
      childReaper := reapers
      zapList := zaps
      zapQueued := queued } :=
  ⟨rfl, ⟨rfl, rfl⟩, fun _ => id, fun _ _ => id, ⟨rfl, rfl⟩, rfl, fun _ => id, fun _ => id,
    fun _ => id, fun _ _ _ => id, rfl, id, fun hk' => by rw [hk] at hk'; cases hk'⟩

theorem doExit_fewer (ht : t ∈ w.tasks) (hk : w.kprobe = true) :
    Fewer host w (w.doExitPre host reaper t) := by
  have h₀ : Fewer host w (w.exitDefer host t) := exitDefer_fewer ht
  have hk₀ := h₀.stopped.1.trans hk
  unfold World.doExitPre World.queueZap
  dsimp only
  split_ifs
  · exact h₀.trans (.of_zaps hk₀)
  · exact h₀.trans (.of_zaps hk₀)
  · exact h₀

theorem doExit_ipcns : (w.doExitPre host reaper t).ipcns = w.ipcns := by
  unfold World.doExitPre World.queueZap World.exitDefer
  dsimp only
  split_ifs <;> rfl

theorem doExit_nsproxy : (w.doExitPre host reaper t).nsproxy = w.nsproxy := by
  unfold World.doExitPre World.queueZap World.exitDefer
  dsimp only
  split_ifs <;> rfl

theorem ipcnsPut_nsproxy : (w.ipcnsPut host n).nsproxy = w.nsproxy := by
  unfold World.ipcnsPut
  split <;> rfl

theorem pidnsPut_nsproxy : (w.pidnsPut n).nsproxy = w.nsproxy := by
  unfold World.pidnsPut
  split <;> rfl

/-- The thread that exits has no nsproxy then. -/
theorem leave_nsproxy (c : Config) (w : World) (t : ℕ) :
    (w.leave c t).nsproxy = Function.update w.nsproxy t none := by
  unfold World.leave
  cases hq : w.nsproxy t with
  | none => exact (Function.update_eq_self_iff.2 hq.symm).symm
  | some q =>
    dsimp only
    split
    · rfl
    split
    · rfl
    have hdec : ∀ n, (if c.kernelOwned then
        { w with nsproxy := Function.update w.nsproxy t none }.ipcDec n
        else { w with nsproxy := Function.update w.nsproxy t none }).nsproxy =
          Function.update w.nsproxy t none := by
      intro n
      split <;> rfl
    split
    · exact hdec _
    split
    · exact hdec _
    · exact ipcnsPut_nsproxy.trans (hdec _)

theorem leave_tasks (c : Config) (w : World) (t : ℕ) : (w.leave c t).tasks = w.tasks := by
  unfold World.leave World.ipcnsPut
  dsimp only
  split
  · rfl
  split
  · rfl
  split_ifs <;> rfl

theorem leave_fewer : Fewer c.host w (w.leave c t) := by
  unfold World.leave
  split
  · exact .refl c.host w
  next q hq =>
  have h₀ : Fewer c.host w { w with nsproxy := Function.update w.nsproxy t none } := by
    refine ⟨rfl, ⟨rfl, rfl⟩, fun _ => id, fun u p hp => ?_, ⟨rfl, rfl⟩, rfl, fun _ => id,
      fun _ => id, fun _ => id, fun _ _ _ => id, rfl, id, fun _ => id⟩
    dsimp only at hp
    by_cases hu : u = t
    · subst hu
      rw [Function.update_self] at hp
      cases hp
    · rwa [Function.update_of_ne hu] at hp
  dsimp only
  split
  · exact h₀
  next n hn =>
  split
  · exact h₀
  have h₁ : Fewer c.host w (if c.kernelOwned then
      { w with nsproxy := Function.update w.nsproxy t none }.ipcDec n
      else { w with nsproxy := Function.update w.nsproxy t none }) := by
    split
    · exact h₀.trans ipcDec_fewer
    · exact h₀
  split
  · exact h₁
  split
  · exact h₁.trans ipcDec_fewer
  · exact h₁.trans ipcnsPut_fewer

theorem leave_counted (h : Counted c.host w) (ho : c.kernelOwned = false)
    (hk : ∀ e ∈ w.ipcnsList, e.kernelOwned = false) (hs : Clean c w (.leave t)) :
    Counted c.host (w.leave c t) := by
  unfold World.leave
  split
  · exact h
  next q hq =>
  dsimp only
  split
  · exact h
  next n hn =>
  split
  · exact h
  next hlast =>
  rw [ho, if_neg Bool.false_ne_true]
  split
  · exact h
  split
  · next hown =>
    obtain ⟨e, he, heq⟩ := List.any_eq_true.1 hown
    rw [hk e he, Bool.and_false] at heq
    cases heq
  · exact Counted.ipcnsPut h (hs.1 ho q n hq hn (by simpa using hlast))

/-- What was ahead of a walk when a thread left, where it was not the last there. -/
theorem Spare.ahead {names : World → ℕ → Prop} (hs : Spare w rest t names) (hu : u ∈ w.tasks)
    (hut : u ≠ t) (hn : names w u) (ha : Ahead w rest u) : Ahead (w.leave c t) rest u := by
  have hkeep {v : ℕ} (hv : v ∈ rest) (hvt : v ≠ t) (heq : w.nsproxy v = w.nsproxy u) :
      Ahead (w.leave c t) rest u := by
    refine ⟨v, hv, ?_⟩
    rw [leave_nsproxy, Function.update_of_ne hvt, Function.update_of_ne hut, heq]
  obtain ⟨v, hv, heq⟩ := ha
  by_cases hvt : v = t
  · subst hvt
    obtain ⟨v', hv', hvt', heq'⟩ := hs u hu hut heq.symm hn
    exact hkeep hv' hvt' (heq'.trans heq)
  · exact hkeep hv hvt heq

/-- A thread leaves, and none is left out by a walk. -/
theorem leave_kept (h : Phase host owned w w.pc) (hs : Clean c w (.leave t)) :
    Kept w (w.leave c t) w.pc := by
  have hgone {q : ℕ} (hq : (w.leave c t).nsproxy t = some q) : False := by
    rw [leave_nsproxy, Function.update_self] at hq
    cases hq
  have hspare := hs.2
  cases hpc : w.pc with
  | walkIpc rest =>
    rw [hpc] at h hspare
    intro u hu ha
    rw [leave_tasks] at hu
    by_cases hut : u = t
    · subst hut
      exact .inl fun q n hq => (hgone hq).elim
    by_cases hn : NamesIpc w u
    · exact .inr (hspare.ahead hu hut hn ha)
    · exact .inl ((ipcClear_of_not h.1.1 hn).fewer leave_fewer)
  | walkPid rest =>
    rw [hpc] at h hspare
    intro u hu ha
    rw [leave_tasks] at hu
    by_cases hut : u = t
    · subst hut
      exact .inl fun q hq => (hgone hq).elim
    by_cases hn : NamesPid w u
    · exact .inr (hspare.ahead hu hut hn ha)
    · exact .inl ((pidClear_of_not h.1.1 hn).fewer leave_fewer)
  | _ => exact trivial

/-- **Threads, inodes and the worker** keep what holds. -/
theorem env_inv (h : Inv c.host c.kernelOwned w) (hact : act ≠ .exit) (hs : Clean c w act)
    (ha : step c w act = some w') : Inv c.host c.kernelOwned w' := by
  cases act with
  | exit => exact absurd rfl hact
  | worker =>
    obtain ⟨hf, hi, hp⟩ := worker_fewer ha
    refine h.fewer hf (.of_nsproxy hp) ?_
    rw [hi]
    exact h.counted
  | doExit t =>
    simp only [step] at ha
    split_ifs at ha with hg
    obtain rfl := Option.some.inj ha
    refine h.fewer (doExit_fewer hg.1 hg.2) (.of_nsproxy doExit_nsproxy) ?_
    rw [doExit_ipcns]
    exact h.counted
  | leave t =>
    simp only [step] at ha
    split_ifs at ha
    obtain rfl := Option.some.inj ha
    refine h.fewer leave_fewer (leave_kept h.phase hs) fun ho =>
      leave_counted (h.counted ho) ho ?_ hs
    intro e he
    rw [h.ipcs e he, ho]
    rfl
  | unhash t =>
    simp only [step] at ha
    split_ifs at ha
    obtain rfl := Option.some.inj ha
    exact h.fewer ⟨rfl, ⟨rfl, rfl⟩, fun _ => List.mem_of_mem_erase, fun _ _ => id, ⟨rfl, rfl⟩, rfl,
      fun _ => id, fun _ => id, fun _ => id, fun _ _ _ => id, rfl, id, fun _ => id⟩
      (.of_nsproxy rfl) h.counted
  | freePid n =>
    obtain rfl := Option.some.inj ha
    exact h.fewer (setPid_fewer id) (.of_nsproxy rfl) h.counted
  | prunePid n =>
    obtain rfl := Option.some.inj ha
    exact h.fewer (setPid_fewer id) (.of_nsproxy rfl) h.counted
  | pruneIpc n =>
    obtain rfl := Option.some.inj ha
    exact h.fewer (setIpc_fewer id) (.of_nsproxy rfl) fun ho =>
      Counted.setIpc (h.counted ho) (h.counted ho n)
  | evictPid n =>
    simp only [step] at ha
    split_ifs at ha
    · obtain rfl := Option.some.inj ha
      exact h.fewer (setPid_fewer fun _ => rfl) (.of_nsproxy rfl) h.counted
    · obtain rfl := Option.some.inj ha
      refine h.fewer ((setPid_fewer fun _ => rfl).trans pidnsPut_fewer)
        (.of_nsproxy pidnsPut_nsproxy) ?_
      unfold World.pidnsPut
      split <;> exact h.counted
  | evictIpc n =>
    simp only [step] at ha
    have hcount (ho : c.kernelOwned = false) :
        Counted c.host (w.setIpc n { w.ipcns n with inode := false }) :=
      Counted.setIpc (h.counted ho) fun _ hi => by cases hi
    split_ifs at ha
    · obtain rfl := Option.some.inj ha
      exact h.fewer (setIpc_fewer fun _ => rfl) (.of_nsproxy rfl) hcount
    · obtain rfl := Option.some.inj ha
      refine h.fewer ((setIpc_fewer fun _ => rfl).trans ipcnsPut_fewer)
        (.of_nsproxy ipcnsPut_nsproxy) fun ho => ?_
      refine (hcount ho).ipcnsPut fun hi => ?_
      unfold World.setIpc at hi
      dsimp only at hi
      rw [Function.update_self] at hi
      cases hi
  | rmId n =>
    obtain rfl := Option.some.inj ha
    exact h.fewer (setIpc_fewer id) (.of_nsproxy rfl) fun ho =>
      Counted.setIpc (h.counted ho) (h.counted ho n)
  | reap n =>
    simp only [step] at ha
    split_ifs at ha
    obtain rfl := Option.some.inj ha
    exact h.fewer ⟨rfl, ⟨rfl, rfl⟩, fun _ => id, fun _ _ => id, ⟨rfl, rfl⟩, rfl,
      fun _ he => (List.mem_filter.1 he).1, fun _ => id, fun _ => id, fun _ _ _ => id, rfl, id,
      fun _ => id⟩ (.of_nsproxy rfl) h.counted

/-! ## The exit -/

theorem pidnsPut_spec (w : World) (n : ℕ) : ∃ pidns, w.pidnsPut n = { w with pidns := pidns } ∧
    ∀ m, (pidns m).inode = (w.pidns m).inode := by
  unfold World.pidnsPut
  split
  · exact ⟨w.pidns, rfl, fun _ => rfl⟩
  · refine ⟨_, rfl, fun m => ?_⟩
    by_cases hm : m = n
    · subst hm
      rw [Function.update_self]
    · rw [Function.update_of_ne hm]

/-- After the walk has come past a thread. -/
theorem resetTask_spec (w : World) (t : ℕ) : ∃ pidns pidOf ipcOf,
    w.resetTask t = { w with pidns := pidns, pidOf := pidOf, ipcOf := ipcOf } ∧
    (∀ n, (pidns n).inode = (w.pidns n).inode) ∧
    (∀ q, pidOf q = w.pidOf q ∨ pidOf q = 0) ∧
    (∀ q n, ipcOf q = some n → w.ipcOf q = some n) ∧
    ∀ q, w.nsproxy t = some q → (pidOf q ∉ w.pidnsList ∨ pidOf q = 0) ∧
      ∀ n, ipcOf q = some n → ∀ e ∈ w.ipcnsList, e.ns ≠ n := by
  unfold World.resetTask
  cases hp : w.nsproxy t with
  | none =>
    exact ⟨_, _, _, rfl, fun _ => rfl, fun _ => .inl rfl, fun _ _ => id, by nofun⟩
  | some q =>
    dsimp only
    -- the pid namespace first
    obtain ⟨pidns, pidOf, hw, hi, hpid, hours⟩ : ∃ pidns pidOf,
        (if w.pidnsIsOurs (w.pidOf q) then
          { w.pidnsPut (w.pidOf q) with pidOf := Function.update w.pidOf q 0 } else w) =
          { w with pidns := pidns, pidOf := pidOf } ∧
        (∀ n, (pidns n).inode = (w.pidns n).inode) ∧
        (∀ q, pidOf q = w.pidOf q ∨ pidOf q = 0) ∧ (pidOf q ∉ w.pidnsList ∨ pidOf q = 0) := by
      split
      · obtain ⟨pidns, hw, hi⟩ := pidnsPut_spec w (w.pidOf q)
        refine ⟨pidns, Function.update w.pidOf q 0, by rw [hw], hi, fun r => ?_, ?_⟩
        · by_cases hr : r = q
          · subst hr
            exact .inr (Function.update_self ..)
          · exact .inl (Function.update_of_ne hr _ _)
        · exact .inr (Function.update_self ..)
      · next hnot =>
        refine ⟨w.pidns, w.pidOf, rfl, fun _ => rfl, fun _ => .inl rfl, ?_⟩
        unfold World.pidnsIsOurs at hnot
        by_cases h0 : w.pidOf q = 0
        · exact .inr h0
        · exact .inl fun hm => hnot (by simp [h0, hm])
    rw [hw]
    dsimp only
    split
    · refine ⟨pidns, pidOf, Function.update w.ipcOf q none, rfl, hi, hpid, fun r n hn => ?_, ?_⟩
      · by_cases hr : r = q
        · subst hr
          rw [Function.update_self] at hn
          cases hn
        · rwa [Function.update_of_ne hr] at hn
      · rintro r hr
        obtain rfl := Option.some.inj hr
        refine ⟨hours, fun n hn => ?_⟩
        rw [Function.update_self] at hn
        cases hn
    · next hnot =>
      refine ⟨pidns, pidOf, w.ipcOf, rfl, hi, hpid, fun _ _ => id, ?_⟩
      rintro r hr
      obtain rfl := Option.some.inj hr
      refine ⟨hours, fun n hn e he hen => hnot ?_⟩
      rw [hn]
      exact List.any_eq_true.2 ⟨e, he, decide_eq_true hen⟩

/-- The exit is elsewhere, and has changed nothing that `Base` is about. -/
theorem Base.move (h : Base host owned w) (hp : ∀ n ∈ w'.pidnsList, n ∈ w.pidnsList)
    (he : ∀ e ∈ w'.ipcnsList, e ∈ w.ipcnsList) (hi : w'.ipcns = w.ipcns)
    (hn : ∀ n, (w'.pidns n).inode = (w.pidns n).inode)
    (hl : w'.ipcLog = w.ipcLog ∧ w'.pidLog = w.pidLog)
    (hd : w.ipcLog = [] ∨ ∀ n, w.deferredNames n = false → w'.deferredNames n = false) :
    Base host owned w' where
  pids h0 := h.pids (hp 0 h0)
  ipcs e hm := h.ipcs e (he e hm)
  counted := by
    rw [hi]
    exact h.counted
  ipcLog v hv := by
    rw [hl.1] at hv
    rcases hd with hd | hd
    · rw [hd] at hv
      cases hv
    · obtain ⟨hk, hg⟩ := h.ipcLog v hv
      rw [hi]
      exact ⟨hk, fun hf => ⟨(hg hf).1, (hg hf).2.1, hd _ (hg hf).2.2⟩⟩
  pidLog v hv := by
    rw [hl.2] at hv
    rw [hn]
    exact h.pidLog v hv

theorem deferredNames_pc (hp : ∀ n, pc ≠ .run n) (h : w.deferredNames n = false) :
    { w with pc := pc }.deferredNames n = false := by
  rw [deferredNames_false] at h ⊢
  exact ⟨h.1, h.2.1, hp n⟩

theorem Base.goto (h : Base host owned w) (hp : ∀ n, pc ≠ .run n) :
    Base host owned { w with pc := pc } :=
  h.move (fun _ => id) (fun _ => id) rfl (fun _ => rfl) ⟨rfl, rfl⟩
    (.inr fun _ => deferredNames_pc hp)

/-- A namespace has been dealt with that no thread names. -/
theorem ipcDone_inv (h : Base host owned w) (hl : w.pidLog = [])
    (hc : ∀ t ∈ w.tasks, IpcClear w (some n) t)
    (hv : (w.ipcNamed n = true → fate = .neutralized) ∧ (fate = .freed →
      n ≠ host ∧ (w.ipcns n).inode = false ∧ w.deferredNames n = false)) :
    Inv host owned (w.ipcDone n fate) where
  pids := h.pids
  ipcs := h.ipcs
  counted := h.counted
  ipcLog v hm := by
    unfold World.ipcDone at hm ⊢
    dsimp only at hm ⊢
    have hd (m : ℕ) : w.deferredNames m = false →
        { w with
          pc := .ipcs
          ipcLog := ⟨n, w.ipcNamed n, fate⟩ :: w.ipcLog }.deferredNames m = false := by
      intro hd
      rw [deferredNames_false] at hd ⊢
      exact ⟨hd.1, hd.2.1, nofun⟩
    rcases List.mem_cons.1 hm with rfl | hm
    · exact ⟨hv.1, fun hf => ⟨(hv.2 hf).1, (hv.2 hf).2.1, hd _ (hv.2 hf).2.2⟩⟩
    · obtain ⟨hk, hg⟩ := h.ipcLog v hm
      exact ⟨hk, fun hf => ⟨(hg hf).1, (hg hf).2.1, hd _ (hg hf).2.2⟩⟩
  pidLog := h.pidLog
  phase := by
    refine ⟨hl, fun t ht q m hq hm => ?_⟩
    obtain ⟨hlist, hcur, hlog⟩ := hc t ht q m hq hm
    refine ⟨hlist, nofun, fun v hv => ?_⟩
    unfold World.ipcDone at hv
    rcases List.mem_cons.1 hv with rfl | hv
    · exact fun hnm => hcur (congrArg some hnm)
    · exact hlog v hv

theorem ipcNeutralize_inv (h : Base host owned w) (hl : w.pidLog = [])
    (hc : ∀ t ∈ w.tasks, IpcClear w (some n) t) : Inv host owned (w.ipcNeutralize n) := by
  have hdone : Inv host owned (w.ipcDone n .neutralized) :=
    ipcDone_inv h hl hc ⟨fun _ => rfl, nofun⟩
  exact hdone.fewer (setIpc_fewer id) (.of_nsproxy rfl) fun ho =>
    Counted.setIpc (hdone.counted ho) (h.counted ho n)

theorem pidDone_inv (h : Base host owned w) (hs : Stopped w)
    (hi : ∀ t ∈ w.tasks, IpcClear w none t) (hc : ∀ t ∈ w.tasks, PidClear w (some n) t)
    (hv : (w.pidNamed n = true → fate = .neutralized) ∧ (fate = .freed →
      (w.pidns n).inode = false)) : Inv host owned (w.pidDone n fate) where
  pids := h.pids
  ipcs := h.ipcs
  counted := h.counted
  ipcLog v hm := by
    obtain ⟨hk, hg⟩ := h.ipcLog v hm
    refine ⟨hk, fun hf => ⟨(hg hf).1, (hg hf).2.1, ?_⟩⟩
    have hd := (hg hf).2.2
    rw [deferredNames_false] at hd ⊢
    exact ⟨hd.1, hd.2.1, nofun⟩
  pidLog v hm := by
    unfold World.pidDone at hm ⊢
    rcases List.mem_cons.1 hm with rfl | hm
    · exact hv
    · exact h.pidLog v hm
  phase := by
    refine ⟨hs, hi, fun t ht q hq => ?_⟩
    obtain ⟨hlist, hcur, hlog⟩ := hc t ht q hq
    refine ⟨hlist, nofun, fun v hv => ?_⟩
    unfold World.pidDone at hv
    rcases List.mem_cons.1 hv with rfl | hv
    · exact fun hnm => hcur (congrArg some hnm)
    · exact hlog v hv

theorem pidNeutralize_inv (h : Base host owned w) (hs : Stopped w)
    (hi : ∀ t ∈ w.tasks, IpcClear w none t) (hc : ∀ t ∈ w.tasks, PidClear w (some n) t) :
    Inv host owned (w.pidNeutralize n) := by
  have hdone : Inv host owned (w.pidDone n .neutralized) :=
    pidDone_inv h hs hi hc ⟨fun _ => rfl, nofun⟩
  exact hdone.fewer (setPid_fewer id) (.of_nsproxy rfl) hdone.counted

/-- The head of the list is taken off, and looked at. -/
theorem IpcClear.pop (h : IpcClear w none t) {rest : List IpcEntry} (hl : w.ipcnsList = e :: rest) :
    IpcClear { w with ipcnsList := rest } (some e.ns) t := by
  intro q n hq hn
  obtain ⟨hlist, -, hlog⟩ := h q n hq hn
  rw [hl] at hlist
  exact ⟨fun e' he' => hlist e' (List.mem_cons_of_mem e he'),
    fun he => hlist e List.mem_cons_self (Option.some.inj he), hlog⟩

theorem PidClear.pop (h : PidClear w none t) (hl : w.pidnsList = n :: rest) :
    PidClear { w with pidnsList := rest } (some n) t := by
  intro q hq
  obtain ⟨hlist, -, hlog⟩ := h q hq
  rw [hl] at hlist
  exact ⟨fun hm => hlist (List.mem_cons_of_mem n hm),
    fun hn => hlist (by rw [← Option.some.inj hn]; exact List.mem_cons_self), hlog⟩

theorem ipcs_inv (h : Inv c.host c.kernelOwned w) (hpc : w.pc = .ipcs) (hs : Clean c w .exit) :
    Inv c.host c.kernelOwned (w.ipcsStep c.host) := by
  have hphase := h.phase
  rw [hpc] at hphase
  obtain ⟨hpl, hcl⟩ := hphase
  unfold Clean at hs
  rw [hpc] at hs
  unfold World.ipcsStep
  split
  · exact ⟨h.toBase.goto (by nofun), hpl, hcl⟩
  · next e rest hl =>
    dsimp only
    have hbase : Base c.host c.kernelOwned { w with ipcnsList := rest } :=
      h.toBase.move (fun _ => id) (fun e' he' => by rw [hl]; exact List.mem_cons_of_mem e he') rfl
        (fun _ => rfl) ⟨rfl, rfl⟩ (.inr fun _ => id)
    have hpop : ∀ t ∈ w.tasks, IpcClear { w with ipcnsList := rest } (some e.ns) t :=
      fun t ht => (hcl t ht).pop hl
    have hown := h.ipcs e (by rw [hl]; exact List.mem_cons_self)
    have hnamed (hk : e.kernelOwned = true ∨ e.ns = c.host) :
        { w with ipcnsList := rest }.ipcNamed e.ns = false :=
      ipcNamed_false (tasksNameIpc_false hpop (.inr (.inl rfl))) (hs e rest hl hk).1
        (hs e rest hl hk).2
    split
    · next hk =>
      rw [hk, eq_comm, Bool.and_eq_true, decide_eq_true_eq] at hown
      have hdone (fate : Fate) :
          Inv c.host c.kernelOwned ({ w with ipcnsList := rest }.ipcDone e.ns fate) := by
        refine ipcDone_inv hbase hpl hpop ⟨fun hn => ?_, fun _ => ?_⟩
        · rw [hnamed (.inl hk)] at hn
          cases hn
        · exact ⟨hown.2, hs e rest hl (.inl hk)⟩
      refine (hdone _).fewer ipcDec_fewer (.of_nsproxy rfl) fun ho => ?_
      rw [hown.1] at ho
      cases ho
    split
    · next hk hh =>
      refine ipcDone_inv hbase hpl hpop ⟨fun hn => ?_, nofun⟩
      rw [hnamed (.inr hh)] at hn
      cases hn
    · next hk hh =>
      refine ⟨hbase.goto (by nofun), ⟨hpl, hh, ?_⟩, hpop⟩
      rw [Bool.not_eq_true] at hk
      rw [hk, decide_eq_true hh, Bool.and_true] at hown
      exact hown.symm

theorem not_ahead : ¬Ahead w [] t := by
  rintro ⟨u, hu, -⟩
  cases hu

/-- A thread further, what was ahead of the walk is ahead of it still, or that thread
    has had the nsproxy. -/
theorem ahead_cons : Ahead w (t :: rest) u ↔ w.nsproxy t = w.nsproxy u ∨ Ahead w rest u := by
  unfold Ahead
  simp only [List.mem_cons, exists_eq_or_imp]

/-- The walk leaves nothing of the module behind. -/
theorem walkIpc_inv (h : Inv host owned w) (hpc : w.pc = .walkIpc (t :: rest)) :
    Inv host owned { w.resetTask t with pc := .walkIpc rest } := by
  have hphase := h.phase
  rw [hpc] at hphase
  obtain ⟨hlogs, hc⟩ := hphase
  obtain ⟨pidns, pidOf, ipcOf, hw, hi, -, hipc, hours⟩ := resetTask_spec w t
  rw [hw]
  refine ⟨h.toBase.move (fun _ => id) (fun _ => id) rfl hi ⟨rfl, rfl⟩ (.inl hlogs.1), hlogs, ?_⟩
  have hnone {n : ℕ} (v : Verdict) (hv : v ∈ w.ipcLog) : v.ns ≠ n := by
    rw [hlogs.1] at hv
    cases hv
  intro u hu
  rcases hc u hu with hclear | hahead
  · exact .inl fun q n hq hn => ⟨(hclear q n hq (hipc q n hn)).1, nofun, hnone⟩
  rcases ahead_cons.1 hahead with heq | hahead
  · exact .inl fun q n hq hn => ⟨(hours q (heq.trans hq)).2 n hn, nofun, hnone⟩
  · exact .inr hahead

theorem walkPid_inv (h : Inv host owned w) (hpc : w.pc = .walkPid (t :: rest)) :
    Inv host owned { w.resetTask t with pc := .walkPid rest } := by
  have hphase := h.phase
  rw [hpc] at hphase
  obtain ⟨⟨hlog, hstop⟩, hipcs, hc⟩ := hphase
  obtain ⟨pidns, pidOf, ipcOf, hw, hi, hpid, hipc, hours⟩ := resetTask_spec w t
  rw [hw]
  refine ⟨h.toBase.move (fun _ => id) (fun _ => id) rfl hi ⟨rfl, rfl⟩
    (.inr fun n => deferredNames_pc (by nofun)), ⟨hlog, hstop⟩, ?_, ?_⟩
  · intro u hu q n hq hn
    exact hipcs u hu q n hq (hipc q n hn)
  · have hzero {q : ℕ} (h0 : pidOf q = 0) : pidOf q ∉ w.pidnsList := by
      rw [h0]
      exact h.pids
    have hnone {n : ℕ} (v : Verdict) (hv : v ∈ w.pidLog) : v.ns ≠ n := by
      rw [hlog] at hv
      cases hv
    intro u hu
    rcases hc u hu with hclear | hahead
    · refine .inl fun q hq => ⟨?_, nofun, hnone⟩
      rcases hpid q with hp | hp
      · show pidOf q ∉ w.pidnsList
        rw [hp]
        exact (hclear q hq).1
      · exact hzero hp
    rcases ahead_cons.1 hahead with heq | hahead
    · exact .inl fun q hq => ⟨(hours q (heq.trans hq)).1.elim id hzero, nofun, hnone⟩
    · exact .inr hahead

theorem pids_inv (h : Inv host owned w) (hpc : w.pc = .pids) : Inv host owned w.pidsStep := by
  have hphase := h.phase
  rw [hpc] at hphase
  obtain ⟨hstop, hi, hc⟩ := hphase
  unfold World.pidsStep
  split
  · exact ⟨h.toBase.goto (by nofun), hstop, hi, hc⟩
  · next n rest hl =>
    refine ⟨h.toBase.move (fun m hm => by rw [hl]; exact List.mem_cons_of_mem n hm) (fun _ => id)
      rfl (fun _ => rfl) ⟨rfl, rfl⟩ (.inr fun _ => deferredNames_pc (by nofun)), hstop, hi, ?_⟩
    exact fun t ht => (hc t ht).pop hl

/-- What the exit finds of a namespace that the module made. -/
theorem ipcCheck_inv (h : Inv c.host c.kernelOwned w) (hs : Clean c w .exit)
    (hpc : w.pc = .ipcStash n ∨ w.pc = .ipcCount n ∨ w.pc = .ipcUse n)
    (ha : w.exitStep c.host c.initTask = some w') : Inv c.host c.kernelOwned w' := by
  have hphase := h.phase
  unfold Clean at hs
  rcases hpc with hpc | hpc | hpc <;> rw [hpc] at hphase hs <;>
    simp only [World.exitStep, hpc, Option.some.injEq] at ha <;> subst ha
  · obtain ⟨⟨hl, hn, ho⟩, hc⟩ := hphase
    split
    · exact ipcNeutralize_inv h.toBase hl hc
    · exact ⟨h.toBase.goto (by nofun), ⟨hl, hn, ho⟩, hc⟩
  · obtain ⟨⟨hl, hn, ho⟩, hc⟩ := hphase
    split
    · exact ipcNeutralize_inv h.toBase hl hc
    · next hzero =>
      have hi : (w.ipcns n).inode = false := by
        rw [← Bool.not_eq_true]
        exact fun hi => hzero (h.counted ho n hn hi)
      have hd := hs (Nat.eq_zero_of_not_pos hzero)
      exact ⟨h.toBase.goto (by nofun), ⟨hl, hn⟩, ⟨hi, deferredNames_pc (by nofun) hd⟩, hc⟩
  · obtain ⟨⟨hl, hn⟩, ⟨hi, hd⟩, hc⟩ := hphase
    split
    · exact ipcNeutralize_inv h.toBase hl hc
    · refine ipcDone_inv h.toBase hl hc ⟨fun hname => ?_, fun _ => ⟨hn, hi, hd⟩⟩
      rw [ipcNamed_false (tasksNameIpc_false hc (.inr (.inl rfl))) hi hd] at hname
      cases hname

theorem pidCheck_inv (h : Inv c.host c.kernelOwned w) (hs : Clean c w .exit)
    (hpc : w.pc = .pidStash n ∨ w.pc = .pidCount n ∨ w.pc = .pidIdr n)
    (ha : w.exitStep c.host c.initTask = some w') : Inv c.host c.kernelOwned w' := by
  have hphase := h.phase
  unfold Clean at hs
  rcases hpc with hpc | hpc | hpc <;> rw [hpc] at hphase hs <;>
    simp only [World.exitStep, hpc, Option.some.injEq] at ha <;> subst ha
  · obtain ⟨hstop, hi, hc⟩ := hphase
    split
    · exact pidNeutralize_inv h.toBase hstop hi hc
    · exact ⟨h.toBase.goto (by nofun), hstop, hi, hc⟩
  · obtain ⟨hstop, hi, hc⟩ := hphase
    split
    · exact pidNeutralize_inv h.toBase hstop hi hc
    · next hone =>
      have hino : (w.pidns n).inode = false := by
        rw [← Bool.not_eq_true]
        exact fun hino => hone (hs hino)
      exact ⟨h.toBase.goto (by nofun), ⟨hino, hstop⟩, hi, hc⟩
  · obtain ⟨⟨hino, hstop⟩, hi, hc⟩ := hphase
    split
    · exact pidNeutralize_inv h.toBase hstop hi hc
    · refine pidDone_inv h.toBase hstop hi hc ⟨fun hname => ?_, fun _ => hino⟩
      rw [pidNamed_false (tasksNamePid_false hc (.inl rfl)) hino hstop] at hname
      cases hname

/-- **The exit** keeps what holds. -/
theorem exit_inv (h : Inv c.host c.kernelOwned w) (hs : Clean c w .exit)
    (ha : w.exitStep c.host c.initTask = some w') : Inv c.host c.kernelOwned w' := by
  have hphase := h.phase
  have hclean := hs
  unfold Clean at hclean
  cases hpc : w.pc with
  | start =>
    rw [hpc] at hphase
    simp only [World.exitStep, hpc, Option.some.injEq] at ha
    subst ha
    exact ⟨h.toBase.goto (by nofun), hphase⟩
  | deferred =>
    rw [hpc] at hphase hclean
    simp only [World.exitStep, hpc] at ha
    split at ha
    · next hnil =>
      obtain rfl := Option.some.inj ha
      refine ⟨h.toBase.goto (by nofun), hphase, fun t ht => ?_⟩
      by_cases hn : NamesIpc w t
      · exact .inr (hclean hnil t ht hn)
      · exact .inl (ipcClear_of_not hphase.1 hn)
    · obtain rfl := Option.some.inj ha
      exact ⟨h.toBase.move (fun _ => id) (fun _ => id) rfl (fun _ => rfl) ⟨rfl, rfl⟩
        (.inl hphase.1), hphase⟩
  | run n =>
    rw [hpc] at hphase
    simp only [World.exitStep, hpc, Option.some.injEq] at ha
    subst ha
    exact ⟨h.toBase.goto (by nofun), hphase⟩
  | walkIpc rest =>
    rw [hpc] at hphase
    cases rest with
    | nil =>
      simp only [World.exitStep, hpc, Option.some.injEq] at ha
      subst ha
      exact ⟨h.toBase.goto (by nofun), hphase.1.2,
        fun t ht => (hphase.2 t ht).resolve_right not_ahead⟩
    | cons t rest =>
      simp only [World.exitStep, hpc, Option.some.injEq] at ha
      subst ha
      exact walkIpc_inv h hpc
  | ipcs =>
    simp only [World.exitStep, hpc, Option.some.injEq] at ha
    subst ha
    exact ipcs_inv h hpc hs
  | ipcStash n => exact ipcCheck_inv h hs (.inl hpc) ha
  | ipcCount n => exact ipcCheck_inv h hs (.inr (.inl hpc)) ha
  | ipcUse n => exact ipcCheck_inv h hs (.inr (.inr hpc)) ha
  | kprobe =>
    rw [hpc] at hphase
    simp only [World.exitStep, hpc, Option.some.injEq] at ha
    subst ha
    exact ⟨h.toBase.move (fun _ => id) (fun _ => id) rfl (fun _ => rfl) ⟨rfl, rfl⟩
      (.inr fun _ => deferredNames_pc (by nofun)), ⟨hphase.1, rfl⟩, hphase.2⟩
  | stop =>
    rw [hpc] at hphase
    simp only [World.exitStep, hpc] at ha
    split_ifs at ha with hw
    obtain rfl := Option.some.inj ha
    exact ⟨h.toBase.goto (by nofun), ⟨hphase.1.1, hphase.1.2, hw⟩, hphase.2⟩
  | zapClear =>
    rw [hpc] at hphase hclean
    simp only [World.exitStep, hpc, Option.some.injEq] at ha
    subst ha
    obtain ⟨⟨hl, hk, hw⟩, hc⟩ := hphase
    refine ⟨h.toBase.move (fun _ => id) (fun _ => id) rfl (fun _ => rfl) ⟨rfl, rfl⟩
      (.inr fun _ => deferredNames_pc (by nofun)), ⟨hl, hk, hw, rfl⟩, hc, fun t ht => ?_⟩
    by_cases hn : NamesPid w t
    · exact .inr (hclean t ht hn)
    · exact .inl (pidClear_of_not hl hn)
  | walkPid rest =>
    rw [hpc] at hphase
    cases rest with
    | nil =>
      simp only [World.exitStep, hpc, Option.some.injEq] at ha
      subst ha
      exact ⟨h.toBase.goto (by nofun), hphase.1.2, hphase.2.1,
        fun t ht => (hphase.2.2 t ht).resolve_right not_ahead⟩
    | cons t rest =>
      simp only [World.exitStep, hpc, Option.some.injEq] at ha
      subst ha
      exact walkPid_inv h hpc
  | pids =>
    simp only [World.exitStep, hpc, Option.some.injEq] at ha
    subst ha
    exact pids_inv h hpc
  | pidStash n => exact pidCheck_inv h hs (.inl hpc) ha
  | pidCount n => exact pidCheck_inv h hs (.inr (.inl hpc)) ha
  | pidIdr n => exact pidCheck_inv h hs (.inr (.inr hpc)) ha
  | done =>
    simp only [World.exitStep, hpc] at ha
    cases ha

theorem step_inv (h : Inv c.host c.kernelOwned w) (hs : Clean c w act)
    (ha : step c w act = some w') : Inv c.host c.kernelOwned w' := by
  by_cases hact : act = .exit
  · subst hact
    exact exit_inv h hs ha
  · exact env_inv h hact hs ha

theorem Start.inv (h : Start c w) : Inv c.host c.kernelOwned w where
  pids := h.pids
  ipcs := h.ipcs
  counted := h.counted
  ipcLog v hv := by
    rw [h.logs.1] at hv
    cases hv
  pidLog v hv := by
    rw [h.logs.2] at hv
    cases hv
  phase := by
    rw [h.pc]
    exact h.logs

/-- The module with namespaces of its own. -/
def served : Config := ⟨0, 0, 7, false, true⟩

end DroidLkm.Unload
