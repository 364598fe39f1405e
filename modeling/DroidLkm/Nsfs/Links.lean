/-
  `/proc/<pid>/ns/{pid,pid_for_children,ipc}` — the namespace links of a task.

  The kernel has no such entries, so its lookup fails with `-ENOENT` and
  `droid_lkm_ns_lookup` makes one.  It chooses a table of operations from the
  namespace that the task has at that moment; procfs keeps the entry, with the
  table in its inode, as long as the task lives.  Reading the link calls the
  `get` of the table.

  * `NsOps`, `State.get`: the tables and what their `get` returns;
  * `State.nsLookup`: the choice of a table;
  * `step`: lookups between the calls of `Slot.Kernel.step`;
  * `follow_run`: what a link shows in every state after its lookup;
  * `link_shows`, `link_stale`: when that is the namespace the task has.
-/
import DroidLkm.Slot.Active

namespace DroidLkm.Nsfs

open Machine Slot

/-! ## Tables of operations -/

/-- `enum droid_lkm_ns_kind`, but for `DROID_LKM_NS_NONE`. -/
inductive Kind where
  | pid
  | pidForChildren
  | ipc
  deriving DecidableEq

/-- The name of the entry. -/
def Kind.name : Kind → String
  | pid => "pid"
  | pidForChildren => "pid_for_children"
  | ipc => "ipc"

/-- `droid_lkm_ns_name_kind` -/
def nsNameKind (name : String) : Option Kind :=
  if name = "pid" then some .pid
  else if name = "pid_for_children" then some .pidForChildren
  else if name = "ipc" then some .ipc
  else none

theorem nsNameKind_name (kind : Kind) : nsNameKind kind.name = some kind := by
  cases kind <;> decide

/-- The tables `struct proc_ns_operations` of the module. -/
inductive NsOps where
  | hostPid
  | hostPidfc
  | pidns
  | pidnsForChildren
  | ipcns
  deriving DecidableEq

/-- `droid_lkm_host_ipc_ops`, which is `droid_lkm_ipcns_ops`. -/
def hostIpcOps : NsOps := .ipcns

/-- A `struct ns_common`: of the placeholder for the host's pid namespace, of a
    pid namespace or of an ipc namespace. -/
inductive NsCommon where
  | placeholder
  | pid (n : ℕ)
  | ipc (n : ℕ)
  deriving DecidableEq

structure State where
  kernel : Kernel
  /-- `child_reaper` of a pid namespace -/
  childReaper : ℕ → Option ℕ
  /-- `ns_ops` in the inode of an entry of a task, if there is one -/
  nsOps : ℕ → Kind → Option NsOps

namespace State

variable (s : State) (t : ℕ)

/-- `droid_lkm_pidns_task_for_children` -/
def pidnsTaskForChildren : Option ℕ := (s.kernel.nsproxyOf t).map (·.pidNsForChildren)

/-- `droid_lkm_host_pid_get`, of both tables of the host -/
def hostPidGet (_ : ℕ) : Option NsCommon := some .placeholder

/-- `droid_lkm_pidns_get_active` -/
def pidnsGetActive : Option NsCommon := some (.pid (s.kernel.task t).activePidNs)

/-- `droid_lkm_pidns_get_for_children` -/
def pidnsGetForChildren : Option NsCommon :=
  match s.pidnsTaskForChildren t with
  | none => none
  | some n => if (s.childReaper n).isNone then none else some (.pid n)

/-- `droid_lkm_ipcns_get_task`, less the reference it takes -/
def ipcnsGetTask : Option NsCommon := some (.ipc (s.kernel.ipcnsTaskNs t))

/-- The `get` of a table. -/
def get : NsOps → Option NsCommon
  | .hostPid => hostPidGet t
  | .hostPidfc => hostPidGet t
  | .pidns => s.pidnsGetActive t
  | .pidnsForChildren => s.pidnsGetForChildren t
  | .ipcns => s.ipcnsGetTask t

/-! ## Lookup -/

/-- `droid_lkm_pidns_is_ours`: every pid namespace but `init_pid_ns` has been
    made by the module and is on its list. -/
def pidnsIsOurs : Option ℕ → Bool
  | none => false
  | some n => n != 0

/-- `droid_lkm_ipcns_task_is_host` -/
def ipcnsTaskIsHost : Bool := s.kernel.ipcnsTaskNs t == 0

/-- `droid_lkm_ns_lookup`, where the kernel's lookup has failed with `-ENOENT`:
    the table for the new entry. -/
def nsLookup : Kind → NsOps
  | .ipc => if s.ipcnsTaskIsHost t then hostIpcOps else .ipcns
  | .pidForChildren =>
    if pidnsIsOurs (s.pidnsTaskForChildren t) then .pidnsForChildren else .hostPidfc
  | .pid => if pidnsIsOurs (some (s.kernel.task t).activePidNs) then .pidns else .hostPid

/-- `droid_lkm_ns_instantiate`: the entry is there, with a table in its inode. -/
def nsInstantiate (kind : Kind) (ops : NsOps) : State :=
  { s with nsOps := Function.update s.nsOps t (Function.update (s.nsOps t) kind (some ops)) }

@[simp]
theorem nsInstantiate_self (kind : Kind) (ops : NsOps) :
    (s.nsInstantiate t kind ops).nsOps t kind = some ops := by
  simp [nsInstantiate]

theorem nsInstantiate_of_ne {u : ℕ} {kind kind' : Kind} (ops : NsOps)
    (h : u ≠ t ∨ kind' ≠ kind) :
    (s.nsInstantiate t kind ops).nsOps u kind' = s.nsOps u kind' := by
  unfold nsInstantiate
  dsimp only
  by_cases hu : u = t
  · subst hu
    rw [Function.update_self, Function.update_of_ne (h.resolve_left fun hne => hne rfl)]
  · rw [Function.update_of_ne hu]

/-- What following the link yields: the `get` of the table in its inode. -/
def follow (kind : Kind) : Option NsCommon := (s.nsOps t kind).bind (s.get t)

/-- `copy_process` makes the first process of a pid namespace its reaper.  The
    child, if the call that leads to `k` made one, is the next task. -/
def bornReaper (k : Kernel) : ℕ → Option ℕ :=
  let c := s.kernel.nextTask
  if k.live c then
    Function.update s.childReaper (k.task c).activePidNs
      ((s.childReaper (k.task c).activePidNs).or (some c))
  else s.childReaper

end State

/-- A call of a task, or the lookup of a name under `/proc/<t>/ns`. -/
inductive Act where
  | call (act : Slot.Act)
  | lookup (t : ℕ) (name : String)

/-- An entry that is there is not looked up again. -/
def step (s : State) : Act → Option State
  | .call act => (s.kernel.step act).map fun k =>
    { s with kernel := k, childReaper := s.bornReaper k }
  | .lookup t name =>
    match nsNameKind name with
    | none => none
    | some kind =>
      if s.kernel.live t ∧ s.nsOps t kind = none then
        some (s.nsInstantiate t kind (s.nsLookup t kind))
      else none

/-- Task 0 alone, in the namespaces of the host; no link has been looked up. -/
def init (cfg : Config) : State where
  kernel := Kernel.init cfg
  childReaper n := if n = 0 then some 0 else none
  nsOps _ _ := none

/-! ## What a link should show -/

namespace State

/-- The `ns_common` that stands for a pid namespace: the placeholder for `init_pid_ns`. -/
def commonOf (n : ℕ) : NsCommon := if n = 0 then .placeholder else .pid n

variable (s : State) (t : ℕ)

/-- The namespace that the task is in or that its nsproxy names. -/
def current : Kind → Option NsCommon
  | .pid => some (commonOf (s.kernel.task t).activePidNs)
  | .pidForChildren => (s.pidnsTaskForChildren t).map commonOf
  | .ipc => some (.ipc (s.kernel.ipcnsTaskNs t))

/-- The namespace for children is one of the module in which no process has
    been born. -/
def unborn (kind : Kind) : Prop :=
  kind = .pidForChildren ∧
    ∃ n, s.pidnsTaskForChildren t = some n ∧ n ≠ 0 ∧ s.childReaper n = none

/-- The namespace for children is `init_pid_ns`. -/
def onHost : Prop := s.pidnsTaskForChildren t = some 0

end State

/-! ## Runs -/

variable {s s₀ s₁ s' : State} {t : ℕ} {name : String} {kind : Kind} {act : Act} {cfg : Config}

/-- The names of the kernel are in order and the proxies of its tasks are there. -/
def Sound (s : State) : Prop := s.kernel.Wf ∧ s.kernel.Backed 0

theorem step_kernel (hs : step s act = some s') :
    s'.kernel = s.kernel ∨ ∃ a, s.kernel.step a = some s'.kernel := by
  cases act with
  | call a =>
    obtain ⟨k, hk, rfl⟩ := Option.map_eq_some_iff.1 hs
    exact Or.inr ⟨a, hk⟩
  | lookup t name =>
    unfold step at hs
    dsimp only at hs
    split at hs
    · cases hs
    · split at hs
      · obtain rfl := Option.some.inj hs
        exact Or.inl rfl
      · cases hs

theorem step_sound (h : Sound s) (hs : step s act = some s') : Sound s' := by
  rcases step_kernel hs with hk | ⟨a, ha⟩
  · unfold Sound
    rwa [hk]
  · exact ⟨(Kernel.step_grows h.1 ha).wf, Kernel.step_backed h.2 h.1 ha⟩

theorem run_sound (h : Run step (init cfg) s) : Sound s :=
  h.inv (I := Sound) ⟨Kernel.init_wf cfg, Kernel.init_backed cfg⟩ fun _ _ _ => step_sound

/-- What a lookup does. -/
theorem lookup_spec (hk : nsNameKind name = some kind)
    (hs : step s (.lookup t name) = some s') :
    s.kernel.live t = true ∧ s'.kernel = s.kernel ∧
      s'.nsOps t kind = some (s.nsLookup t kind) := by
  unfold step at hs
  dsimp only at hs
  rw [hk] at hs
  dsimp only at hs
  split at hs
  next h =>
    obtain rfl := Option.some.inj hs
    exact ⟨h.1, rfl, s.nsInstantiate_self t kind _⟩
  · cases hs

/-- An entry that is there keeps its table. -/
theorem step_nsOps {ops : NsOps} (h : s.nsOps t kind = some ops) (hs : step s act = some s') :
    s'.nsOps t kind = some ops := by
  cases act with
  | call a =>
    obtain ⟨k, -, rfl⟩ := Option.map_eq_some_iff.1 hs
    exact h
  | lookup u name =>
    unfold step at hs
    dsimp only at hs
    split at hs
    · cases hs
    · next kind' _ =>
      split at hs
      · next hnew =>
        obtain rfl := Option.some.inj hs
        rw [State.nsInstantiate_of_ne]
        · exact h
        · by_contra hne
          obtain ⟨rfl, rfl⟩ := by simpa using hne
          rw [hnew.2] at h
          cases h
      · cases hs

/-- After a lookup: the entry keeps its table and the task its pid namespace. -/
structure After (s₀ : State) (t : ℕ) (kind : Kind) (s : State) : Prop where
  sound : Sound s
  task : t < s.kernel.nextTask
  active : (s.kernel.task t).activePidNs = (s₀.kernel.task t).activePidNs
  nsOps : s.nsOps t kind = some (s₀.nsLookup t kind)

theorem step_after (h : After s₀ t kind s) (hs : step s act = some s') : After s₀ t kind s' := by
  have hstep : s.kernel.nextTask ≤ s'.kernel.nextTask ∧
      (s'.kernel.task t).activePidNs = (s.kernel.task t).activePidNs := by
    rcases step_kernel hs with hk | ⟨a, ha⟩
    · rw [hk]
      exact ⟨Nat.le_refl _, rfl⟩
    · exact ⟨(Kernel.step_grows h.sound.1 ha).task,
        Kernel.step_active h.sound.1 h.sound.2 ha t h.task⟩
  exact ⟨step_sound h.sound hs, Nat.lt_of_lt_of_le h.task hstep.1, hstep.2.trans h.active,
    step_nsOps h.nsOps hs⟩

theorem run_after (h₀ : Run step (init cfg) s₀) (hk : nsNameKind name = some kind)
    (hl : step s₀ (.lookup t name) = some s₁) (h : Run step s₁ s) : After s₀ t kind s := by
  have hsound := run_sound h₀
  obtain ⟨hlive, hkernel, hops⟩ := lookup_spec hk hl
  refine h.inv (I := After s₀ t kind) ⟨step_sound hsound hl, ?_, ?_, hops⟩ fun _ _ _ => step_after
  · rw [hkernel]
    exact hsound.1.live hlive
  · rw [hkernel]

/-- **A link shows what its table gets**, and the table is the one chosen at the lookup. -/
theorem follow_run (h₀ : Run step (init cfg) s₀) (hk : nsNameKind name = some kind)
    (hl : step s₀ (.lookup t name) = some s₁) (h : Run step s₁ s) :
    s.follow t kind = s.get t (s₀.nsLookup t kind) := by
  rw [State.follow, (run_after h₀ hk hl h).nsOps, Option.bind_some]

/-! ## Links -/

theorem Sound.forChildren (h : Sound s) (ht : s.kernel.live t = true) :
    ∃ n, s.pidnsTaskForChildren t = some n := by
  obtain ⟨x, hx⟩ := h.2.nsproxyOf h.1 ht
  exact ⟨x.pidNsForChildren, by rw [State.pidnsTaskForChildren, hx]; rfl⟩

/-- The table of the link of a task for its own pid namespace. -/
theorem get_pid (hactive : (s.kernel.task t).activePidNs = (s₀.kernel.task t).activePidNs) :
    s.get t (s₀.nsLookup t .pid) = s.current t .pid := by
  have htable : s₀.nsLookup t .pid =
      if (s.kernel.task t).activePidNs = 0 then .hostPid else .pidns := by
    unfold State.nsLookup State.pidnsIsOurs
    dsimp only
    rw [← hactive]
    by_cases h0 : (s.kernel.task t).activePidNs = 0
    · rw [if_neg (by simp [h0]), if_pos h0]
    · rw [if_pos (by simp [h0]), if_neg h0]
  rw [htable]
  unfold State.current State.commonOf
  dsimp only
  split <;> rfl

/-- There is one table for the ipc namespaces. -/
theorem get_ipc : s.get t (s₀.nsLookup t .ipc) = s.current t .ipc := by
  unfold State.nsLookup hostIpcOps
  rw [ite_self]
  rfl

/-- The table for children that a lookup chooses. -/
theorem nsLookup_forChildren {n : ℕ} (hn : s.pidnsTaskForChildren t = some n) :
    s.nsLookup t .pidForChildren = if n = 0 then .hostPidfc else .pidnsForChildren := by
  unfold State.nsLookup
  dsimp only
  rw [hn, State.pidnsIsOurs]
  by_cases h0 : n = 0
  · rw [if_neg (by simp [h0]), if_pos h0]
  · rw [if_pos (by simp [h0]), if_neg h0]

/-- **A link shows the namespace that the task has**, the placeholder for
    `init_pid_ns`, and nothing where no process has been born in it.  For the
    namespace for children: if it is on the side, of the host or of the module,
    on which it was at the lookup. -/
theorem link_shows (h₀ : Run step (init cfg) s₀) (hk : nsNameKind name = some kind)
    (hl : step s₀ (.lookup t name) = some s₁) (h : Run step s₁ s) (ht : s.kernel.live t = true)
    (hside : kind = .pidForChildren → (s₀.onHost t ↔ s.onHost t)) :
    (s.unborn t kind → s.follow t kind = none) ∧
      (¬ s.unborn t kind → s.follow t kind = s.current t kind) := by
  have hafter := run_after h₀ hk hl h
  rw [follow_run h₀ hk hl h]
  cases kind with
  | pid => exact ⟨fun hu => absurd hu.1 (by decide), fun _ => get_pid hafter.active⟩
  | ipc => exact ⟨fun hu => absurd hu.1 (by decide), fun _ => get_ipc⟩
  | pidForChildren =>
    obtain ⟨n₀, hn₀⟩ := (run_sound h₀).forChildren (lookup_spec hk hl).1
    obtain ⟨n, hn⟩ := hafter.sound.forChildren ht
    have hzero : n₀ = 0 ↔ n = 0 := by simpa [State.onHost, hn₀, hn] using hside rfl
    rw [nsLookup_forChildren hn₀]
    unfold State.current State.commonOf
    dsimp only
    rw [hn, Option.map_some]
    by_cases h0 : n = 0
    · rw [if_pos (hzero.2 h0), if_pos h0]
      refine ⟨?_, fun _ => rfl⟩
      rintro ⟨-, m, hm, hm0, -⟩
      exact absurd ((Option.some.inj (hn.symm.trans hm)).symm.trans h0) hm0
    · rw [if_neg (mt hzero.1 h0), if_neg h0]
      unfold State.get State.pidnsGetForChildren
      dsimp only
      rw [hn]
      dsimp only
      constructor
      · rintro ⟨-, m, hm, -, hnone⟩
        obtain rfl := Option.some.inj (hn.symm.trans hm)
        rw [hnone]
        rfl
      · intro hborn
        rw [if_neg ?_]
        intro hnone
        exact hborn ⟨rfl, n, hn, h0, Option.isNone_iff_eq_none.1 hnone⟩

/-- All hooks are in force. -/
def allHooks : Config := ⟨true, true, true, true, false⟩

/-- A capable caller, and nothing fails. -/
def allowed : Env := ⟨true, true, true, 0, 0, 0, 0, 0, 0, 0, 0, false⟩

/-- A task that has a pid namespace for its children, and a first child in it,
    leaves its ipc namespace after its link was looked up. -/
theorem link_shows_unshare : ∃ s, Run step (init allHooks) s ∧
    s.follow 0 .pidForChildren = some (.pid 1) := by
  obtain ⟨s₀, h₀, hs₀⟩ := exec_check step (init allHooks)
    [.call (.unshare 0 CLONE_NEWPID allowed), .call (.fork 0 0 allowed)]
    (fun s => s.pidnsTaskForChildren 0 == some 1 &&
      ((step s (.lookup 0 "pid_for_children")).bind fun s₁ =>
        step s₁ (.call (.unshare 0 CLONE_NEWIPC allowed))).any fun s : State => decide
          (s.kernel.live 0 = true ∧ s.pidnsTaskForChildren 0 = some 1 ∧ s.childReaper 1 = some 1))
    (by decide +kernel)
  obtain ⟨hn₀, hs⟩ := Bool.and_eq_true_iff.1 hs₀
  obtain ⟨s, hs, hend⟩ := (Option.any_eq_true ..).1 hs
  obtain ⟨s₁, hl, hu⟩ := Option.bind_eq_some_iff.1 hs
  obtain ⟨ht, hn, hreaper⟩ := of_decide_eq_true hend
  have hrun : Run step s₁ s := Relation.ReflTransGen.single ⟨_, trivial, hu⟩
  have hshow := link_shows h₀ (nsNameKind_name .pidForChildren) hl hrun ht fun _ => by
    rw [State.onHost, State.onHost, eq_of_beq hn₀, hn]
  refine ⟨s, (RunIf.snoc h₀ trivial hl).trans hrun, ?_⟩
  rw [hshow.2 ?_, State.current, hn]
  · rfl
  · rintro ⟨-, m, hm, -, hnone⟩
    obtain rfl := Option.some.inj (hn.symm.trans hm)
    rw [hreaper] at hnone
    cases hnone

/-- A link does not always show what the task has: nothing while no process has
    been born in the namespace, and the placeholder after the lookup was made
    on the host. -/
theorem link_differs :
    (∃ s, Run step (init allHooks) s ∧ s.kernel.live 0 = true ∧
      (s.nsOps 0 .pidForChildren).isSome = true ∧
      s.current 0 .pidForChildren = some (.pid 1) ∧ s.follow 0 .pidForChildren = none) ∧
    ∃ s, Run step (init allHooks) s ∧ s.kernel.live 0 = true ∧
      (s.nsOps 0 .pidForChildren).isSome = true ∧
      s.current 0 .pidForChildren = some (.pid 1) ∧
      s.follow 0 .pidForChildren = some .placeholder := by
  constructor
  · obtain ⟨s, hrun, hs⟩ := exec_check step (init allHooks)
      [.call (.unshare 0 CLONE_NEWPID allowed), .lookup 0 "pid_for_children"]
      (fun s => decide (s.kernel.live 0 = true ∧ (s.nsOps 0 .pidForChildren).isSome = true ∧
        s.current 0 .pidForChildren = some (.pid 1) ∧ s.follow 0 .pidForChildren = none))
      (by decide +kernel)
    exact ⟨s, hrun, of_decide_eq_true hs⟩
  · obtain ⟨s, hrun, hs⟩ := exec_check step (init allHooks)
      [.lookup 0 "pid_for_children", .call (.unshare 0 CLONE_NEWPID allowed),
        .call (.fork 0 0 allowed)]
      (fun s => decide (s.kernel.live 0 = true ∧ (s.nsOps 0 .pidForChildren).isSome = true ∧
        s.current 0 .pidForChildren = some (.pid 1) ∧
        s.follow 0 .pidForChildren = some .placeholder))
      (by decide +kernel)
    exact ⟨s, hrun, of_decide_eq_true hs⟩

/-- A namespace for children that has changed sides since the lookup is not
    shown: the table of the other side does not name it. -/
theorem link_stale (h₀ : Run step (init cfg) s₀) (hk : nsNameKind name = some .pidForChildren)
    (hl : step s₀ (.lookup t name) = some s₁) (h : Run step s₁ s) (ht : s.kernel.live t = true)
    (hside : ¬(s₀.onHost t ↔ s.onHost t)) :
    s.follow t .pidForChildren ≠ s.current t .pidForChildren := by
  obtain ⟨n₀, hn₀⟩ := (run_sound h₀).forChildren (lookup_spec hk hl).1
  obtain ⟨n, hn⟩ := (run_after h₀ hk hl h).sound.forChildren ht
  have hzero : ¬(n₀ = 0 ↔ n = 0) := by simpa [State.onHost, hn₀, hn] using hside
  rw [follow_run h₀ hk hl h, nsLookup_forChildren hn₀]
  unfold State.current State.commonOf
  dsimp only
  rw [hn, Option.map_some]
  by_cases h0 : n = 0
  · rw [if_neg fun hz => hzero (iff_of_true hz h0), if_pos h0]
    unfold State.get State.pidnsGetForChildren
    dsimp only
    rw [hn]
    dsimp only
    split <;> exact fun hf => by cases hf
  · rw [if_pos (by_contra fun hz => hzero (iff_of_false hz h0)), if_neg h0]
    exact fun hf => by cases hf

end DroidLkm.Nsfs
